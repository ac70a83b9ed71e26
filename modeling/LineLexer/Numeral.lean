import LineLexer.ClassTable
import LineLexer.Numeral.Hex
import LineLexer.Numeral.Real
import LineLexer.Text.Ascii

/-!
# `LineLexer.Numeral`: a number as it is read

A numeral is read byte by byte. What it has taken in so far decides
which bytes it still takes: a point once and only before an exponent
or a hexadecimal marker, an exponent once, hexadecimal letters only
where a marker tells that they are digits. The marker may stand
behind the letters, so the bytes ahead are looked at too.

* `Numeral.next?`: the numeral with one more byte, if it takes it.
* `Numeral.run`: the numeral with as many bytes as it takes.
* `Numeral.value?`: its value as an integer.
* `run_append`: no byte is lost or invented on the way.
-/

set_option autoImplicit false

namespace LineLexer

/-- A number as far as it has been read. This is what decides which bytes
are still taken. -/
structure Numeral where
  /-- Whether the numeral has a minus sign. -/
  negative : Bool
  /-- The bytes that make the text of the numeral, the last one first. -/
  kept : List UInt8
  /-- The number that the digits before any point or exponent write. -/
  whole : Nat
  /-- Whether the numeral has a point. -/
  point : Bool
  /-- Whether the numeral has an exponent marker. -/
  exponent : Bool
  /-- Whether the numeral has an `x`, after which letters are digits. -/
  hexPrefix : Bool
  /-- Whether the numeral has a hexadecimal marker, `x` or `h`. -/
  hex : Bool
  deriving DecidableEq, Repr

namespace Numeral

open Ascii

/-- A numeral of which nothing but the sign has been read. The sign is
kept apart from the text. -/
def signed (negative : Bool) : Numeral :=
  { negative, kept := [], whole := 0, point := false, exponent := false,
    hexPrefix := false, hex := false }

/-- The bytes that make the text of a numeral, in the order of the
line. -/
def text (n : Numeral) : List UInt8 := n.kept.reverse

/-- Whether the numeral has a fraction or an exponent. Its whole part is
then complete. -/
def isReal (n : Numeral) : Bool := n.point || n.exponent

/-- The numeral with one more byte in its text, and nothing else
changed. -/
def keep (n : Numeral) (b : UInt8) : Numeral := { n with kept := b :: n.kept }

/-! ### Bytes with a meaning of their own -/

/-- Whether a byte is the marker of an exponent, of either case. -/
def isExponentMarker (b : UInt8) : Bool := b == 'e'.toUInt8 || b == 'E'.toUInt8

/-- Whether a byte is the marker before hexadecimal digits, of either
case. -/
def isPrefixMarker (b : UInt8) : Bool := b == 'x'.toUInt8 || b == 'X'.toUInt8

/-- Whether a byte is the marker behind hexadecimal digits, of either
case. -/
def isSuffixMarker (b : UInt8) : Bool := b == 'h'.toUInt8 || b == 'H'.toUInt8

/-- The underscore, which spells a minus sign in a real number. -/
def underscore : UInt8 := '_'.toUInt8

/-- Whether the numeral ends in an exponent marker, so that a sign may
follow. -/
def endsInMarker (n : Numeral) : Bool :=
  n.exponent && n.kept.head?.any isExponentMarker

/-! ### Looking ahead -/

/-- Whether some bytes begin with hexadecimal digits and the marker that
makes them digits. A letter is taken into a number on this condition. -/
def suffixAhead (rest : List UInt8) : Bool :=
  (rest.dropWhile isHexDigit).head?.any isSuffixMarker

/-- Whether some bytes can go on after an exponent marker: with a digit,
or with a sign and a digit. -/
def exponentAhead : List UInt8 → Bool
  | [] => false
  | b :: rest =>
    isDigit b || ((isSign b || b == underscore) && rest.head?.any isDigit)

/-! ### One byte more -/

/-- The numeral with a byte of class digit, if it takes it: a digit
always, a point once and only before an exponent or marker, an
underscore only as the sign of the exponent. -/
def nextDigit? (n : Numeral) (b : UInt8) : Option Numeral :=
  if isDigit b then
    some { n.keep b with
      whole := if n.isReal then n.whole else n.whole * 10 + digitValue b }
  else if b == '.'.toUInt8 then
    if n.point || n.exponent || n.hex then none else some { n.keep b with point := true }
  else if b == underscore && n.endsInMarker then some (n.keep b)
  else none

/-- The numeral with a byte of class operator, if it takes it: a sign
after the exponent marker of a real number, before a digit. -/
def nextSign? (reals : Bool) (n : Numeral) (b : UInt8) (rest : List UInt8) :
    Option Numeral :=
  if reals && isSign b && n.endsInMarker && rest.head?.any isDigit then some (n.keep b)
  else none

/-- The numeral with a byte of class other, if it takes it: a marker,
a hexadecimal digit that a marker before or behind it makes one, or
the marker of a real number's exponent. The suffix marker is no part
of the text. -/
def nextLetter? (reals : Bool) (n : Numeral) (b : UInt8) (rest : List UInt8) :
    Option Numeral :=
  if isPrefixMarker b then some { n.keep b with hexPrefix := true, hex := true }
  else if isSuffixMarker b then some { n with hex := true }
  -- A hexadecimal `e` is tried before the marker of an exponent.
  else if isHexDigit b && (n.hexPrefix || suffixAhead rest) then some (n.keep b)
  else if isExponentMarker b && reals && !(n.exponent || n.hex) && exponentAhead rest then
    some { n.keep b with exponent := true }
  else none

/-- The numeral with the byte `b` that `rest` follows, if it takes it. The
class of the byte decides among the three ways of taking one. -/
def next? (classes : ClassTable) (reals : Bool) (n : Numeral) (b : UInt8)
    (rest : List UInt8) : Option Numeral :=
  match classes b with
  | .delimiter => none
  | .operator => n.nextSign? reals b rest
  | .digit => n.nextDigit? b
  | .other => n.nextLetter? reals b rest

/-- The numeral that a first byte of class digit begins. An underscore
there is a minus sign. -/
def start (b : UInt8) : Numeral :=
  if b == underscore then signed true
  else ((signed false).nextDigit? b).getD (signed false)

/-- The numeral that a sign and a byte of class digit begin. The sign is
kept apart from the text. -/
def startSigned (sign b : UInt8) : Numeral :=
  let n := signed (sign == '-'.toUInt8)
  (n.nextDigit? b).getD n

/-- The numeral with as many of the bytes as it takes, the bytes that
it took, and those that it left. -/
def run (classes : ClassTable) (reals : Bool) :
    Numeral → List UInt8 → Numeral × List UInt8 × List UInt8
  | n, [] => (n, [], [])
  | n, b :: rest =>
    match n.next? classes reals b rest with
    | some next =>
      let (last, taken, left) := run classes reals next rest
      (last, b :: taken, left)
    | none => (n, [], b :: rest)

/-! ### The value -/

/-- The value of a numeral as an integer: that of a hexadecimal one is
read from its text, that of another one is its whole part. A value
that is no 64-bit integer is a fault. -/
def value? (n : Numeral) (text : String) : Except NumeralFault Int :=
  if n.hex then
    (readHex text).map fun value => if n.negative then -value else value
  else
    let value : Int := if n.negative then -n.whole else n.whole
    if isInteger64 value then .ok value else .error ⟨.integerOutOfRange, text⟩

/-- The value of a numeral as a real number. That of a hexadecimal one
is its integer value; a fault is reported for any other text that is
no number. -/
def realValue? (n : Numeral) (text : String) (intValue : Int) :
    Except NumeralFault Binary64 :=
  if n.hex then .ok (Binary64.ofInt intValue)
  else (readReal text).map (Binary64.signed n.negative)

/-! ### Laws -/

/-- No byte is lost or invented on the way: the bytes taken and the bytes
left are those that the run began with. -/
theorem run_append (classes : ClassTable) (reals : Bool) (n : Numeral)
    (bytes : List UInt8) :
    (n.run classes reals bytes).2.1 ++ (n.run classes reals bytes).2.2 = bytes := by
  induction bytes generalizing n with
  | nil => rfl
  | cons b rest ih =>
    unfold run
    cases h : n.next? classes reals b rest with
    | none => rfl
    | some next => simp [ih next]

end Numeral

end LineLexer
