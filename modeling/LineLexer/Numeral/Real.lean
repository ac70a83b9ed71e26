import LineLexer.Binary64
import LineLexer.Numeral.Fault

/-!
# `LineLexer.Numeral.Real`: decimal numerals with a fraction or exponent

The value of a real numeral is the binary64 number nearest to what the
text says. An underscore is another spelling of the minus sign, also
in an exponent.

* `readReal`: the value of a text, or that it is malformed.
* `magnitude?`: the text behind the sign. It is a word for infinity or
  NaN in any case, or digits with an optional point and exponent, of
  which at least one digit stands before the exponent.
-/

set_option autoImplicit false

namespace LineLexer.Numeral

/-- The number that a list of decimal digits writes, the first digit being
worth most. -/
def decimalValue (digits : List Char) : Nat :=
  digits.foldl (fun value c => value * 10 + (c.toNat - '0'.toNat)) 0

/-- A word in small letters. The words for infinity and NaN are compared
in this form. -/
def lowered (word : List Char) : List Char := word.map Char.toLower

/-- The sign at the front of a text, and what follows it. The flag is set
for a minus sign. -/
def splitSign : List Char → Bool × List Char
  | '+' :: rest => (false, rest)
  | '-' :: rest => (true, rest)
  | rest => (false, rest)

/-- A text that begins with no sign is not negative, and all of it is left
behind the sign. -/
theorem splitSign_of_head {text : List Char} (h : ∀ c ∈ text.head?, c ≠ '+' ∧ c ≠ '-') :
    splitSign text = (false, text) := by
  cases text with
  | nil => rfl
  | cons c rest =>
    obtain ⟨hplus, hminus⟩ := h c rfl
    unfold splitSign
    split
    · next heq => exact absurd (List.cons.inj heq).1 hplus
    · next heq => exact absurd (List.cons.inj heq).1 hminus
    · rfl

/-- The exponent that the whole text writes: nothing, or a marker, an
optional sign and digits. -/
def exponent? : List Char → Option Int
  | [] => some 0
  | marker :: rest =>
    let (negative, digits) := splitSign rest
    if (marker == 'e' || marker == 'E') && !digits.isEmpty && digits.all Char.isDigit then
      let size : Int := decimalValue digits
      some (if negative then -size else size)
    else none

/-- The number that digits with an optional point and exponent write. At
least one digit stands on one side of the point. -/
def decimal? (text : List Char) : Option Binary64 :=
  let whole := text.takeWhile Char.isDigit
  let rest := text.dropWhile Char.isDigit
  let (fraction, rest) := match rest with
    | '.' :: rest => (rest.takeWhile Char.isDigit, rest.dropWhile Char.isDigit)
    | rest => ([], rest)
  if whole.isEmpty && fraction.isEmpty then none
  else (exponent? rest).map fun exponent =>
    Binary64.ofDecimal (decimalValue (whole ++ fraction)) (exponent - fraction.length)

/-- The number that a text without a sign writes: a word for infinity or
NaN in any case, or digits. -/
def magnitude? (text : List Char) : Option Binary64 :=
  if lowered text = "inf".toList ∨ lowered text = "infinity".toList then
    some Binary64.infinity
  else if lowered text = "nan".toList then some Binary64.nan
  else decimal? text

/-- The value of a real numeral: an optional sign and a magnitude. An
underscore spells a minus sign wherever it stands. -/
def readReal (text : String) : Except NumeralFault Binary64 :=
  let spelled := text.toList.map fun c => if c = '_' then '-' else c
  let (negative, rest) := splitSign spelled
  match magnitude? rest with
  | some value => .ok (value.signed negative)
  | none => .error ⟨.malformed, text⟩

end LineLexer.Numeral
