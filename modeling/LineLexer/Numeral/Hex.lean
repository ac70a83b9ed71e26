import LineLexer.Numeral.Fault

/-!
# `LineLexer.Numeral.Hex`: hexadecimal numerals

The value of a hexadecimal numeral is a signed 64-bit integer. The
markers `x` and `X` may stand anywhere and count for nothing, so a
numeral of markers alone is zero.

* `readHex`: the value of a text, or what is wrong with it.
* `hexDigits?`: the digits after the sign, read from left to right;
  the first bad digit or overflow decides.
-/

set_option autoImplicit false

namespace LineLexer

/-- The greatest value of an integer token, which is the greatest signed
64-bit integer. -/
def maxInteger : Int := 0x7FFFFFFFFFFFFFFF

/-- The least value of an integer token, which is the least signed 64-bit
integer. -/
def minInteger : Int := -0x8000000000000000

/-- Whether an integer is one of the signed 64-bit ones, the bounds
included. -/
def isInteger64 (n : Int) : Bool := minInteger ≤ n && n ≤ maxInteger

namespace Numeral

/-- The worth of a hexadecimal digit of either case. Other characters have
none. -/
def hexDigit? (c : Char) : Option Nat :=
  if '0' ≤ c ∧ c ≤ '9' then some (c.toNat - '0'.toNat)
  else if 'a' ≤ c ∧ c ≤ 'f' then some (c.toNat - 'a'.toNat + 10)
  else if 'A' ≤ c ∧ c ≤ 'F' then some (c.toNat - 'A'.toNat + 10)
  else none

/-- The markers of hexadecimal numerals. They may stand anywhere in the
text and count for nothing. -/
def isHexMarker (c : Char) : Bool := c == 'x' || c == 'X'

/-- The digits behind `value`, read from left to right as parts of a
number with the given sign. A character that is no digit makes the
numeral malformed. A value out of range is reported as such when the
number is positive, and makes the numeral malformed when it is
negative. -/
def hexDigits? (negative : Bool) (value : Int) :
    List Char → Except NumeralFault.Kind Int
  | [] => .ok value
  | c :: rest =>
    match hexDigit? c with
    | none => .error .malformed
    | some digit =>
      let next := if negative then value * 16 - digit else value * 16 + digit
      if isInteger64 next then hexDigits? negative next rest
      else .error (if negative then .malformed else .hexOutOfRange)

/-- The value of the digits behind a sign. Without any digit there is
none. -/
def signedHex? (negative : Bool) (digits : List Char) :
    Except NumeralFault.Kind Int :=
  if digits.isEmpty then .error .malformed else hexDigits? negative 0 digits

/-- The value of a hexadecimal numeral: its markers are dropped, and
what is left is empty, or an optional sign and digits. -/
def readHex (text : String) : Except NumeralFault Int :=
  let value : Except NumeralFault.Kind Int :=
    match text.toList.filter fun c => !isHexMarker c with
    | [] => .ok 0
    | '+' :: digits => signedHex? false digits
    | '-' :: digits => signedHex? true digits
    | digits => signedHex? false digits
  value.mapError fun kind => ⟨kind, text⟩

end Numeral

end LineLexer
