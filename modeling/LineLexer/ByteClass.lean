/-!
# `LineLexer.ByteClass`: what a byte means to the scanner

Every byte belongs to one of four classes. The class of a token's
first byte decides what kind of token it is, and the class of each
byte after it decides whether the token goes on.

* `ByteClass.ofByte`: the class a byte has when nothing is changed.
* `ofByte_eq_delimiter_iff`, `ofByte_eq_digit_iff`: the first two
  classes as conditions on the byte.
-/

set_option autoImplicit false

namespace LineLexer

/-- The class of a byte, which is all that the scanner looks at to find
where a token ends. -/
inductive ByteClass where
  /-- White space, control characters and `;`, which separate tokens. -/
  | delimiter
  /-- Bytes that form operators of one or two characters. -/
  | operator
  /-- Bytes that start or continue a number. -/
  | digit
  /-- Everything else: words, quotes and letters inside numbers. -/
  | other
  deriving DecidableEq, Repr, Inhabited

namespace ByteClass

/-- All classes, in the order in which they are reported. -/
def all : List ByteClass := [delimiter, operator, digit, other]

/-- The name under which a class is reported, both in text rows and in
JSON. -/
def name : ByteClass → String
  | delimiter => "delimiter"
  | operator => "operator"
  | digit => "digit"
  | other => "other"

/-- The bytes that form operators, alone or in pairs. -/
def operatorBytes : List UInt8 :=
  ['#', '*', '+', '-', '/', '<', '=', '>', '%', '^'].map Char.toUInt8

/-- The class of a byte when nothing is pinned or widened. Every byte
above the ASCII range is an ordinary character. -/
def ofByte (b : UInt8) : ByteClass :=
  if b ≤ ' '.toUInt8 || b == ';'.toUInt8 then delimiter
  else if '0'.toUInt8 ≤ b && b ≤ '9'.toUInt8 then digit
  else if operatorBytes.contains b then operator
  else other

/-- The delimiters are the bytes up to the space, and the semicolon. So
every control character separates tokens. -/
theorem ofByte_eq_delimiter_iff (b : UInt8) :
    ofByte b = delimiter ↔ b ≤ ' '.toUInt8 ∨ b = ';'.toUInt8 := by
  unfold ofByte
  by_cases h : (b ≤ ' '.toUInt8 || b == ';'.toUInt8) = true
  · rw [if_pos h]
    simpa using h
  · rw [if_neg h]
    constructor
    · intro heq
      split at heq
      · cases heq
      · split at heq <;> cases heq
    · intro hb
      exact absurd (by simpa using hb) h

/-- The digits are the ten decimal ones. The point and the underscore
become digits only by widening. -/
theorem ofByte_eq_digit_iff (b : UInt8) :
    ofByte b = digit ↔ '0'.toUInt8 ≤ b ∧ b ≤ '9'.toUInt8 := by
  unfold ofByte
  constructor
  · intro heq
    split at heq
    · cases heq
    · split at heq
      · next h => simpa using h
      · split at heq <;> cases heq
  · intro ⟨hlow, hhigh⟩
    have hspace : ' '.toUInt8.toNat = 32 := rfl
    have hsemi : ';'.toUInt8.toNat = 59 := rfl
    have hzero : '0'.toUInt8.toNat = 48 := rfl
    have hnine : '9'.toUInt8.toNat = 57 := rfl
    have hlow' := UInt8.le_iff_toNat_le.mp hlow
    have hhigh' := UInt8.le_iff_toNat_le.mp hhigh
    rw [if_neg, if_pos (by simp [hlow, hhigh])]
    simp only [Bool.or_eq_true, decide_eq_true_eq, beq_iff_eq,
      UInt8.le_iff_toNat_le, ← UInt8.toNat_inj]
    omega

end ByteClass

end LineLexer
