/-!
# `LineLexer.Line`: the text that a cursor moves over

A line is a list of bytes with at least one element and without NUL.
Two lines with equal bytes can still be different lines, so each
carries a serial number; whoever makes several lines gives them
different ones.

* `Line.ofBytes?`: the line that some bytes begin with.
* `bytes_of_ofBytes?`: its bytes are those before the first NUL.
-/

set_option autoImplicit false

namespace LineLexer

/-- A line of input. It has at least one byte, and none of its bytes is
NUL. -/
structure Line where
  /-- What tells this line from other lines with the same bytes. -/
  serial : Nat
  bytes : List UInt8
  bytes_ne_nil : bytes ≠ []
  zero_not_mem : 0 ∉ bytes
  deriving DecidableEq

namespace Line

/-- The number of bytes in the line, which is never zero. -/
def length (line : Line) : Nat := line.bytes.length

/-- The bytes before the first NUL, as a line with the given serial
number, if there are any. -/
def ofBytes? (serial : Nat) (bytes : List UInt8) : Option Line :=
  let kept := bytes.takeWhile (· != 0)
  if h : kept = [] then none
  else some ⟨serial, kept, h, fun hzero => by
    simpa using List.all_eq_true.mp List.all_takeWhile 0 hzero⟩

/-- The line that some bytes begin with holds the bytes before the first
NUL. -/
theorem bytes_of_ofBytes? {serial : Nat} {bytes : List UInt8} {line : Line}
    (h : ofBytes? serial bytes = some line) :
    line.bytes = bytes.takeWhile (· != 0) := by
  unfold ofBytes? at h
  simp only at h
  split at h
  · cases h
  · cases h
    rfl

/-- There is no line exactly if nothing stands before the first
NUL. -/
theorem ofBytes?_eq_none_iff (serial : Nat) (bytes : List UInt8) :
    ofBytes? serial bytes = none ↔ bytes = [] ∨ bytes.head? = some 0 := by
  unfold ofBytes?
  cases bytes with
  | nil => simp
  | cons b rest =>
    by_cases hb : b = 0
    · simp [hb]
    · simp [hb]

/-- A line has at least one byte, by the way it is made. -/
theorem length_pos (line : Line) : 0 < line.length :=
  List.length_pos_iff.mpr line.bytes_ne_nil

end Line

end LineLexer
