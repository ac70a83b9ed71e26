import LineLexer.Proofs.SignAndRun
import LineLexer.Proofs.Taken

/-!
# `LineLexer.Proofs.CheckedWhole`: the whole part of a number in 64 bits

The whole part of a number is kept as a natural number without a bound,
and its value is compared with the range of 64-bit integers at the end. A
scanner that keeps 64 bits has to watch each step: it multiplies by ten
and adds a digit, and gives up for good when one of the two overflows. At
the end it sets the sign in wider arithmetic and narrows the result.

Both come to the same. A whole part that has reached `2 ^ 64` only grows,
so it never comes back into 64 bits, and it lies outside the range of
64-bit integers with either sign.

* `Checked.ofNat?`, `Checked.mul?`, `Checked.add?`: arithmetic that tells when
  64 bits do not suffice.
* `Numeral.checkedRun`: the whole part in 64 bits, kept beside a run.
* `Numeral.checkedRun_eq`: the whole part in 64 bits is that of the run,
  if it fits.
* `Numeral.value?_eq_checkedValue?`: the value of a decimal number from a
  whole part in 64 bits.
* `Cursor.intValue_eq_checked`: the value of every decimal number that a
  scan returns.
-/

set_option autoImplicit false

namespace LineLexer

open Ascii

/-! ### Arithmetic in 64 bits -/

namespace Checked

/-- The natural number in 64 bits, if they suffice for it. This is the
test behind each checked operation. -/
def ofNat? (n : Nat) : Option UInt64 := if n < 2 ^ 64 then some (.ofNat n) else none

/-- The product of two 64-bit numbers, if 64 bits suffice for it. -/
def mul? (a b : UInt64) : Option UInt64 := ofNat? (a.toNat * b.toNat)

/-- The sum of two 64-bit numbers, if 64 bits suffice for it. -/
def add? (a b : UInt64) : Option UInt64 := ofNat? (a.toNat + b.toNat)

/-- A number is found in 64 bits exactly if it is below `2 ^ 64`. -/
theorem ofNat?_eq_some_iff {n : Nat} {m : UInt64} : ofNat? n = some m ↔ m.toNat = n := by
  rw [ofNat?]
  split
  · next h =>
    rw [Option.some_inj, ← UInt64.toNat_inj, UInt64.toNat_ofNat_of_lt' h, eq_comm]
  · next h =>
    have hlt := m.toNat_lt
    exact iff_of_false (by simp) (by omega)

/-- A number is not found in 64 bits exactly from `2 ^ 64` on. -/
theorem ofNat?_eq_none_iff {n : Nat} : ofNat? n = none ↔ 2 ^ 64 ≤ n := by
  rw [ofNat?]
  split
  · next h => exact iff_of_false (by simp) (by omega)
  · next h => exact iff_of_true rfl (by omega)

end Checked

namespace Numeral

/-! ### One digit more -/

/-- The whole part with one more digit, if there are enough bits for it
and for what comes on the way. -/
def addDigit? (magnitude : UInt64) (b : UInt8) : Option UInt64 :=
  (Checked.mul? magnitude 10).bind fun tenfold => Checked.add? tenfold (.ofNat (digitValue b))

/-- A digit is added to a whole part in 64 bits as it is to a natural
number: there are too few bits exactly if the new number does not fit. -/
theorem addDigit?_eq (magnitude : UInt64) (b : UInt8) :
    addDigit? magnitude b = Checked.ofNat? (magnitude.toNat * 10 + digitValue b) := by
  have hdigit : (UInt64.ofNat (digitValue b)).toNat = digitValue b := by
    refine UInt64.toNat_ofNat_of_lt' (Nat.lt_of_le_of_lt ?_ (by decide : 255 < 2 ^ 64))
    rw [digitValue]
    have hlt := b.toNat_lt
    omega
  rw [addDigit?, Checked.mul?]
  cases htenfold : Checked.ofNat? (magnitude.toNat * (10 : UInt64).toNat) with
  | none =>
    -- What is too large already is so with a digit added.
    have hlarge := Checked.ofNat?_eq_none_iff.mp htenfold
    exact (Checked.ofNat?_eq_none_iff.mpr (Nat.le_add_right_of_le hlarge)).symm
  | some tenfold =>
    rw [Option.bind_some, Checked.add?, hdigit, Checked.ofNat?_eq_some_iff.mp htenfold]
    rfl

/-- The whole part that is kept in 64 bits, or `none` once it did not fit,
when the number takes one more byte. Only digits before any point or
exponent are added to it. -/
def checkedNext (classes : ClassTable) (n : Numeral) (magnitude : Option UInt64) (b : UInt8) :
    Option UInt64 :=
  if classes b = .digit ∧ isDigit b = true ∧ n.isReal = false then
    magnitude.bind (addDigit? · b)
  else magnitude

/-- The whole part that is kept in 64 bits beside a run, from its first
byte to its last. -/
def checkedRun (classes : ClassTable) (reals : Bool) :
    Numeral → Option UInt64 → List UInt8 → Option UInt64
  | _, magnitude, [] => magnitude
  | n, magnitude, b :: rest =>
    match n.next? classes reals b rest with
    | some next => checkedRun classes reals next (n.checkedNext classes magnitude b) rest
    | none => magnitude

section Run
variable {classes : ClassTable} {reals : Bool} {n next : Numeral} {b : UInt8}
  {rest : List UInt8}

/-- A byte of class digit is added to the whole part if it is a digit that
stands before any point or exponent, and otherwise leaves it as it is. -/
theorem whole_of_nextDigit? (h : n.nextDigit? b = some next) :
    next.whole = if isDigit b = true ∧ n.isReal = false then n.whole * 10 + digitValue b
      else n.whole := by
  rw [nextDigit?] at h
  by_cases hdigit : isDigit b = true
  · rw [if_pos hdigit] at h
    cases h
    cases hreal : n.isReal <;> simp [hdigit]
  · rw [if_neg hdigit] at h
    rw [if_neg fun hboth => hdigit hboth.1]
    split at h
    · split at h
      · cases h
      · cases h
        rfl
    · split at h
      · cases h
        rfl
      · cases h

/-- A byte of class other leaves the whole part as it is. -/
theorem whole_of_nextLetter? (h : n.nextLetter? reals b rest = some next) :
    next.whole = n.whole := by
  rw [nextLetter?] at h
  split_ifs at h
  all_goals
    cases h
    rfl

/-- The whole part of a number with one more byte: a digit of class digit
before any point or exponent is added to it, and any other byte leaves it
as it is. -/
theorem whole_of_next? (h : n.next? classes reals b rest = some next) :
    next.whole = if classes b = .digit ∧ isDigit b = true ∧ n.isReal = false then
      n.whole * 10 + digitValue b else n.whole := by
  rw [next?] at h
  cases hclass : classes b with
  | delimiter =>
    rw [hclass] at h
    cases h
  | operator =>
    rw [hclass] at h
    dsimp only [nextSign?] at h
    split at h
    · cases h
      rfl
    · cases h
  | digit =>
    rw [hclass] at h
    simpa using whole_of_nextDigit? h
  | other =>
    rw [hclass] at h
    exact whole_of_nextLetter? h

/-- One byte keeps the whole part in 64 bits together with the natural
number. -/
theorem checkedNext_eq (h : n.next? classes reals b rest = some next) :
    n.checkedNext classes (Checked.ofNat? n.whole) b = Checked.ofNat? next.whole := by
  rw [checkedNext, whole_of_next? h]
  split
  · cases hwhole : Checked.ofNat? n.whole with
    | none =>
      have hlarge := Checked.ofNat?_eq_none_iff.mp hwhole
      exact (Checked.ofNat?_eq_none_iff.mpr (by omega)).symm
    | some magnitude =>
      rw [Option.bind_some, addDigit?_eq, Checked.ofNat?_eq_some_iff.mp hwhole]
  · rfl

/-- A whole run keeps the whole part in 64 bits together with the natural
number: it is `none` at the end exactly if the whole part has reached
`2 ^ 64`. -/
theorem checkedRun_eq (n : Numeral) (bytes : List UInt8) :
    n.checkedRun classes reals (Checked.ofNat? n.whole) bytes
      = Checked.ofNat? (n.run classes reals bytes).1.whole := by
  induction bytes generalizing n with
  | nil => rfl
  | cons b rest ih =>
    rw [checkedRun, run]
    cases hnext : n.next? classes reals b rest with
    | none => rfl
    | some next =>
      dsimp only
      rw [checkedNext_eq hnext, ih]

end Run

/-! ### The value -/

/-- The value of a decimal number from the whole part in 64 bits: the sign
is set in wider arithmetic, and the result has to be a 64-bit integer. -/
def checkedValue? (negative : Bool) (magnitude : Option UInt64) (text : String) :
    Except NumeralFault Int :=
  match magnitude with
  | none => .error ⟨.integerOutOfRange, text⟩
  | some magnitude =>
    let value : Int := if negative then -magnitude.toNat else magnitude.toNat
    if isInteger64 value then .ok value else .error ⟨.integerOutOfRange, text⟩

/-- The value of a decimal number is that from its whole part in 64 bits.
Where the whole part does not fit, it is no 64-bit integer with either
sign. -/
theorem value?_eq_checkedValue? {n : Numeral} (hhex : n.hex = false) (text : String) :
    n.value? text = checkedValue? n.negative (Checked.ofNat? n.whole) text := by
  rw [value?, hhex, if_neg Bool.false_ne_true]
  cases hwhole : Checked.ofNat? n.whole with
  | none =>
    have hlarge := Checked.ofNat?_eq_none_iff.mp hwhole
    have hrange : isInteger64 (if n.negative then -(n.whole : Int) else n.whole) = false := by
      rw [isInteger64, minInteger, maxInteger]
      split <;> simp <;> omega
    simp only [hrange, checkedValue?]
    rfl
  | some magnitude =>
    rw [checkedValue?, Checked.ofNat?_eq_some_iff.mp hwhole]

end Numeral

open Numeral

/-- With nothing pinned but delimiters, the value of every decimal number
that a scan returns is that from the whole part in 64 bits, which is kept
from zero on beside the run over the bytes behind its sign. -/
theorem Cursor.intValue_eq_checked {cursor next : Cursor} {mode : Mode} {pinned : List UInt8}
    {fold : Bool} {token : Token} (hclasses : cursor.classes = ClassTable.standard.pinAll pinned)
    (h : cursor.scan mode fold = (some token, next)) (hdigit : token.byteClass = .digit)
    (hhex : token.flags.hex = false) :
    ∃ sign bytes, Begins mode sign bytes ∧
      let negative := isMinus sign
      let classes := mode.classes cursor.classes
      let magnitude := (signed negative).checkedRun classes (mode == .real) (some 0) bytes
      token.span.slice cursor.line.bytes
          = sign ++ ((signed negative).run classes (mode == .real) bytes).2.1 ∧
        token.intValue = recovered 0 (checkedValue? negative magnitude token.text) := by
  obtain ⟨sign, bytes, reported, hbegins, -, hscanned, hslice, -⟩ :=
    run_of_scan hclasses h hdigit
  have hdecimal : ((signed (isMinus sign)).run (mode.classes cursor.classes) (mode == .real)
      bytes).1.hex = false := by
    rw [← hhex, hscanned.flags]
  obtain ⟨-, hnegative, -⟩ :=
    kept_of_run (mode.classes cursor.classes) (mode == .real) (signed (isMinus sign)) bytes
  have hrun : (signed (isMinus sign)).checkedRun (mode.classes cursor.classes) (mode == .real)
      (Checked.ofNat? (signed (isMinus sign)).whole) bytes = _ :=
    checkedRun_eq (signed (isMinus sign)) bytes
  refine ⟨sign, bytes, hbegins, hslice, ?_⟩
  rw [hscanned.intValue, value?_eq_checkedValue? hdecimal, hnegative, ← hrun]
  rfl

end LineLexer
