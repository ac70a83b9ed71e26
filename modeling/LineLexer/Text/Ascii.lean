/-!
# `LineLexer.Text.Ascii`: ASCII letters and digits, byte by byte

A line is a list of bytes, and only its ASCII bytes have a meaning to
the scanner. This module says which bytes are digits, what a digit is
worth, and how letters are upper-cased. Bytes from `0x80` up are left
alone by every function here, so a multi-byte character passes
through unharmed.

* `toUpper_idem`: upper-casing twice is upper-casing once.
* `isHexDigit_of_isDigit`: a decimal digit is a hexadecimal digit.
-/

set_option autoImplicit false

namespace LineLexer.Ascii

/-- Whether a byte is one of the digits `0` to `9`. -/
def isDigit (b : UInt8) : Bool :=
  '0'.toUInt8 ≤ b && b ≤ '9'.toUInt8

/-- Whether a byte is a decimal digit or one of the letters `a` to `f` of
either case. -/
def isHexDigit (b : UInt8) : Bool :=
  isDigit b
    || ('a'.toUInt8 ≤ b && b ≤ 'f'.toUInt8)
    || ('A'.toUInt8 ≤ b && b ≤ 'F'.toUInt8)

/-- The worth of a decimal digit, from zero to nine. -/
def digitValue (b : UInt8) : Nat :=
  b.toNat - '0'.toNat

/-- Whether a byte is one of the two quotes, the double quote and the
apostrophe. -/
def isQuote (b : UInt8) : Bool :=
  b == 0x22 || b == 0x27

/-- Whether a byte is the plus or the minus sign. -/
def isSign (b : UInt8) : Bool :=
  b == '+'.toUInt8 || b == '-'.toUInt8

/-- The capital of a small letter. Any other byte is left as it is. -/
def toUpper (b : UInt8) : UInt8 :=
  if 'a'.toUInt8 ≤ b && b ≤ 'z'.toUInt8 then b - 32 else b

/-- The bytes with every small letter among them in capitals. -/
def upper (bytes : List UInt8) : List UInt8 :=
  bytes.map toUpper

/-- The bytes with their letters in capitals when `fold` is set, and
as they are otherwise. -/
def folded (fold : Bool) (bytes : List UInt8) : List UInt8 :=
  if fold then upper bytes else bytes

/-! ### Laws -/

/-- A decimal digit is a hexadecimal digit, so a run of hexadecimal digits
goes on past decimal ones. -/
theorem isHexDigit_of_isDigit {b : UInt8} (h : isDigit b = true) :
    isHexDigit b = true := by
  simp [isHexDigit, h]

/-- A capital is its own capital, so upper-casing twice is upper-casing
once. -/
theorem toUpper_idem (b : UInt8) : toUpper (toUpper b) = toUpper b := by
  have hlow : 'a'.toUInt8.toNat = 97 := rfl
  have hhigh : 'z'.toUInt8.toNat = 122 := rfl
  unfold toUpper
  by_cases h : ('a'.toUInt8 ≤ b && b ≤ 'z'.toUInt8) = true
  · rw [if_pos h, if_neg]
    simp only [Bool.and_eq_true, decide_eq_true_eq, UInt8.le_iff_toNat_le,
      hlow, hhigh] at h ⊢
    have hsub : (b - 32).toNat = b.toNat - 32 :=
      UInt8.toNat_sub_of_le b 32 (UInt8.le_iff_toNat_le.mpr (by
        show 32 ≤ b.toNat
        omega))
    omega
  · simp only [if_neg h]

/-- Upper-casing keeps the number of bytes, and with it all positions in a
line. -/
@[simp] theorem length_upper (bytes : List UInt8) :
    (upper bytes).length = bytes.length := by
  simp [upper]

/-- Folding keeps the number of bytes, whether it changes any or not. -/
@[simp] theorem length_folded (fold : Bool) (bytes : List UInt8) :
    (folded fold bytes).length = bytes.length := by
  cases fold <;> simp [folded]

end LineLexer.Ascii
