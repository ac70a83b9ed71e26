import LineLexer.ByteClass

/-!
# `LineLexer.ClassTable`: the classes in force

A table gives each byte its class. It starts out as
`ByteClass.ofByte` and changes in two ways: a byte can be pinned as a
delimiter for good, and the whole table can be widened, which lends
some bytes another class. Widening passes over every byte that has
lost its first class, so a pinned byte stays a delimiter.

* `pin_apply`, `widen_apply`: each change, byte by byte.
* `settled_eq`: working out every class at once changes none.
* `widen_eq_delimiter_iff`: widening neither makes nor unmakes a
  delimiter.
* `toList_inj`: a table is known by its 256 entries, which is what
  decides equality of tables.
-/

set_option autoImplicit false

namespace LineLexer

/-- A table gives a class to every byte. Two tables with the same classes
are the same table. -/
@[ext]
structure ClassTable where
  /-- The class that the table gives to a byte. -/
  classOf : UInt8 → ByteClass

namespace ClassTable

instance : CoeFun ClassTable fun _ => UInt8 → ByteClass := ⟨classOf⟩

/-- The table before any change. It gives every byte the class it has by
itself. -/
def standard : ClassTable := ⟨ByteClass.ofByte⟩

instance : Inhabited ClassTable := ⟨standard⟩

/-- The table with one more byte pinned as a delimiter. No widening
changes that byte any more. -/
def pin (table : ClassTable) (byte : UInt8) : ClassTable :=
  ⟨fun b => if b = byte then .delimiter else table b⟩

/-- The table with all of the bytes pinned as delimiters. The order of the
bytes does not matter. -/
def pinAll (table : ClassTable) (bytes : List UInt8) : ClassTable :=
  ⟨fun b => if b ∈ bytes then .delimiter else table b⟩

/-- Whether a byte has the class that it starts out with. Only such bytes
are widened. -/
def isStandard (table : ClassTable) (b : UInt8) : Bool :=
  table b == ByteClass.ofByte b

/-- The classes of the bytes from 0 to 255, in this order. The list
decides whether two tables are equal. -/
def toList (table : ClassTable) : List ByteClass :=
  (List.range 256).map fun n => table (UInt8.ofNat n)

/-- The same table with every class worked out. A table asks the one
that it was made from; a settled table has nothing left to ask, however
many changes it has been through. -/
def settled (table : ClassTable) : ClassTable :=
  let classes := table.toList.toArray
  ⟨fun b => classes[b.toNat]?.getD .other⟩

end ClassTable

/-- A way of lending bytes another class for a while. The scanner asks for
one when it reads real numbers, and for the other when it reads words. -/
inductive Widening where
  /-- The point and the underscore count as digits. -/
  | real
  /-- Digits and operator bytes count as ordinary characters. -/
  | word
  deriving DecidableEq, Repr

/-- The class that a byte is lent, if it is lent one. -/
def Widening.lends : Widening → UInt8 → Option ByteClass
  | .real, b => if b = '.'.toUInt8 ∨ b = '_'.toUInt8 then some .digit else none
  | .word, b =>
    match ByteClass.ofByte b with
    | .digit | .operator => some .other
    | .delimiter | .other => none

namespace ClassTable

/-- The table with the widening applied to every byte that still has its
first class. Bytes that have been pinned are passed over. -/
def widen (table : ClassTable) (widening : Widening) : ClassTable :=
  ⟨fun b =>
    let current := table b
    if current = ByteClass.ofByte b then (widening.lends b).getD current else current⟩

/-! ### Laws -/

@[simp] theorem standard_apply (b : UInt8) : standard b = ByteClass.ofByte b := rfl

/-- Pinning a byte makes it a delimiter and leaves the class of every
other byte as it was. -/
theorem pin_apply (table : ClassTable) (byte b : UInt8) :
    table.pin byte b = if b = byte then .delimiter else table b := rfl

/-- Pinning several bytes makes each of them a delimiter and leaves the
class of every other byte as it was. -/
theorem pinAll_apply (table : ClassTable) (bytes : List UInt8) (b : UInt8) :
    table.pinAll bytes b = if b ∈ bytes then .delimiter else table b := rfl

/-- Pinning several bytes at once is the same as pinning them one after
the other, in any order. -/
theorem pinAll_eq_foldl (table : ClassTable) (bytes : List UInt8) :
    table.pinAll bytes = bytes.foldl pin table := by
  induction bytes generalizing table with
  | nil => rfl
  | cons byte rest ih =>
    rw [List.foldl_cons, ← ih]
    ext b
    by_cases hrest : b ∈ rest <;> by_cases hbyte : b = byte <;>
      simp [pinAll_apply, pin_apply, hrest, hbyte]

/-- Widening changes the class of a byte if one is lent to it and it still
has its first class. No other byte is changed. -/
theorem widen_apply (table : ClassTable) (widening : Widening) (b : UInt8) :
    table.widen widening b
      = if table.isStandard b then (widening.lends b).getD (table b) else table b := by
  simp only [widen, isStandard, beq_iff_eq]

/-- No byte is lent the class of delimiters, and no delimiter is lent
another class. Both halves are needed for `widen_eq_delimiter_iff`. -/
theorem ofByte_ne_delimiter_of_lends {widening : Widening} {b : UInt8}
    {c : ByteClass} (h : widening.lends b = some c) :
    ByteClass.ofByte b ≠ .delimiter ∧ c ≠ .delimiter := by
  cases widening with
  | real =>
    simp only [Widening.lends] at h
    split at h
    · next hb =>
      cases h
      rcases hb with rfl | rfl <;> decide
    · cases h
  | word =>
    simp only [Widening.lends] at h
    cases hb : ByteClass.ofByte b <;> rw [hb] at h <;> simp at h <;> subst h <;> simp

/-- Widening neither makes nor unmakes a delimiter. Where tokens are
separated is therefore the same in every mode. -/
theorem widen_eq_delimiter_iff (table : ClassTable) (widening : Widening)
    (b : UInt8) : table.widen widening b = .delimiter ↔ table b = .delimiter := by
  rw [widen_apply]
  split
  · next hstd =>
    cases hlend : widening.lends b with
    | none => simp
    | some c =>
      have hb := ofByte_ne_delimiter_of_lends hlend
      have heq : table b = ByteClass.ofByte b := by simpa [isStandard] using hstd
      simp [heq, hb.1, hb.2]
  · exact Iff.rfl

/-- The list of a table has the class of each byte at the byte's place. So
the list holds all that there is to know of the table. -/
theorem toList_getElem (table : ClassTable) (b : UInt8) :
    table.toList[b.toNat]? = some (table b) := by
  have hb : b.toNat < 256 := b.toNat_lt
  simp [toList, hb]

/-- A settled table gives every byte the class it had before. Settling is
about how long a look-up takes, not about what it finds. -/
@[simp] theorem settled_eq (table : ClassTable) : table.settled = table := by
  ext b
  simp only [settled, List.getElem?_toArray, toList_getElem, Option.getD_some]

/-- Two tables are equal exactly if their 256 entries are. This is what
makes equality of tables decidable. -/
theorem toList_inj {table other : ClassTable} :
    table.toList = other.toList ↔ table = other := by
  constructor
  · intro h
    ext b
    have hb := table.toList_getElem b
    rw [h, other.toList_getElem b] at hb
    exact (Option.some.inj hb).symm
  · rintro rfl
    rfl

instance : DecidableEq ClassTable := fun table other =>
  decidable_of_iff (table.toList = other.toList) toList_inj

end ClassTable

end LineLexer
