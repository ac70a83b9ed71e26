import LineLexer.Proofs.HexText
import LineLexer.Proofs.NumeralText

/-!
# `LineLexer.Proofs.HexReading`: which texts are hexadecimal numbers

The text of a number that the scanner reads as a hexadecimal one is
made of ASCII bytes and has no sign in front. So there are three ways
for its reading to end: the digits at its start write a number past the
largest integer, a byte among them is no digit, or all of them are
digits and write a number in range. The `x` markers count for nothing,
and capitals are worth what small letters are.

* `hexWritten`: the number that hexadecimal digits write, of any size.
* `hexNumber_shown`: the bytes of a number write what their characters
  write, folded or not.
* `readHex_folded`: which of the three ends the text comes to.
* `readHex_nonneg`: the value of a number's text is never negative, so
  there is a negative of it.
-/

set_option autoImplicit false

namespace LineLexer.Numeral

open Ascii

/-! ### The value of digits -/

/-- The worth of a hexadecimal digit of either case, from zero to
fifteen. -/
def hexDigitValue (b : UInt8) : Nat :=
  if isDigit b then digitValue b else (toUpper b).toNat - 'A'.toNat + 10

/-- The number that hexadecimal digits write, of any size. The first digit
is worth most. -/
def hexWritten (digits : List UInt8) : Nat :=
  Nat.ofDigits 16 (digits.map hexDigitValue).reverse

/-- Digits in front of others are worth as many powers of sixteen more as
there are others. -/
theorem hexWritten_append (front more : List UInt8) :
    hexWritten (front ++ more) = hexWritten front * 16 ^ more.length + hexWritten more :=
  ofDigits_map_append hexDigitValue front more

/-! ### Bytes as characters -/

/-- The character that is read for a byte of a text, in capitals if
`fold` is set. -/
def shown (fold : Bool) (b : UInt8) : Char :=
  Char.ofNat (if fold then toUpper b else b).toNat

section Shown
variable (fold : Bool) (b : UInt8)

/-- A hexadecimal digit is read as a character of its worth, and no other
byte is read as a digit. -/
theorem hexWorth?_shown :
    hexWorth? (shown fold b) = if isHexDigit b then some (hexDigitValue b) else none := by
  rw [← hexDigit?_eq_hexWorth?]
  revert b
  cases fold with
  | false => exact forall_byte (by decide +kernel)
  | true => exact forall_byte (by decide +kernel)

/-- A prefix marker is read as one, in capitals or not, and no other byte
is. -/
theorem isHexMarker_shown : isHexMarker (shown fold b) = isPrefixMarker b := by
  revert b
  cases fold with
  | false => exact forall_byte (by decide +kernel)
  | true => exact forall_byte (by decide +kernel)

/-- A byte that is no sign is not read as one, in capitals or not. -/
theorem shown_ne_sign (h : isSign b = false) : shown fold b ≠ '+' ∧ shown fold b ≠ '-' := by
  revert b
  cases fold with
  | false => exact forall_byte (by decide +kernel)
  | true => exact forall_byte (by decide +kernel)

variable {bytes : List UInt8}

/-- The text of ASCII bytes has one character for each byte. -/
theorem toList_decode_folded (h : ∀ b ∈ bytes, b < 0x80) :
    (Utf8.decode (folded fold bytes)).toList = bytes.map (shown fold) := by
  rw [Utf8.decode, String.toList_ofList, Utf8.decodeChars_of_ascii (folded_ascii fold h)]
  cases fold with
  | false => rfl
  | true =>
    rw [folded, if_pos rfl, upper, List.map_map]
    rfl

/-- A byte is read as a hexadecimal digit exactly if it is one. -/
theorem isHexDigitChar_comp_shown : isHexDigitChar ∘ shown fold = isHexDigit := by
  funext b
  show (hexWorth? (shown fold b)).isSome = isHexDigit b
  rw [hexWorth?_shown]
  cases isHexDigit b <;> rfl

/-- Hexadecimal digits write the number that their characters write, in
capitals or not. -/
theorem hexNumber_shown (h : ∀ b ∈ bytes, isHexDigit b = true) :
    hexNumber (bytes.map (shown fold)) = hexWritten bytes := by
  rw [hexNumber, hexWritten, List.map_map]
  congr 2
  refine List.map_congr_left fun b hb => ?_
  show (hexWorth? (shown fold b)).getD 0 = hexDigitValue b
  rw [hexWorth?_shown, if_pos (h b hb)]
  rfl

end Shown

/-! ### The whole text -/

/-- A natural number is no 64-bit integer exactly if it is at least `2 ^
63`. -/
theorem isInteger64_natCast_eq_false (n : Nat) : isInteger64 n = false ↔ 2 ^ 63 ≤ n := by
  rw [Bool.eq_false_iff, Ne, isInteger64_iff]
  omega

/-- A text without sign in front is read as a hexadecimal number by the
bytes that are left without its prefix markers. It comes to one of three
ends: a number out of range, a byte that is no digit, or a number. -/
theorem readHex_folded (fold : Bool) {bytes : List UInt8} (hascii : ∀ b ∈ bytes, b < 0x80)
    (hhead : ∀ b ∈ (unprefixed bytes).head?, isSign b = false) :
    let text := Utf8.decode (folded fold bytes)
    readHex text
      = if 2 ^ 63 ≤ hexWritten ((unprefixed bytes).takeWhile isHexDigit) then
          .error ⟨.hexOutOfRange, text⟩
        else if (unprefixed bytes).all isHexDigit then .ok (hexWritten (unprefixed bytes))
        else .error ⟨.malformed, text⟩ := by
  intro text
  have hdigits : (text.toList.filter fun c => !isHexMarker c)
      = (unprefixed bytes).map (shown fold) := by
    rw [toList_decode_folded fold hascii, List.filter_map, unprefixed]
    congr 2
    funext b
    exact congrArg (! ·) (isHexMarker_shown fold b)
  cases hbytes : unprefixed bytes with
  | nil =>
    rw [readHex, hdigits, hbytes]
    rfl
  | cons b rest =>
    rw [hbytes] at hhead hdigits
    have hne : (b :: rest).map (shown fold) ≠ [] := List.cons_ne_nil _ _
    -- The first byte is no sign, so all of the text is read as digits.
    have hsign : splitSign ((b :: rest).map (shown fold))
        = (false, (b :: rest).map (shown fold)) := by
      refine splitSign_of_head fun c hc => ?_
      cases hc
      exact shown_ne_sign fold b (hhead b rfl)
    rw [readHex_eq hdigits hne, hsign, signedHex?_eq hne, List.takeWhile_map, List.all_map,
      isHexDigitChar_comp_shown, hexNumber_shown fold fun _ => List.mem_takeWhile_imp]
    simp only [withSign, Bool.false_eq_true, if_false, isInteger64_natCast_eq_false]
    split
    · rfl
    · split
      · next hall =>
        rw [hexNumber_shown fold (List.all_eq_true.mp hall)]
        rfl
      · rfl

/-- The value of a number's text as a hexadecimal number is not negative,
as its sign is kept apart from the text. -/
theorem readHex_nonneg {n : Numeral} (h : Unsigned n) (fold : Bool) {value : Int}
    (hread : readHex (Utf8.decode (folded fold n.text)) = .ok value) : 0 ≤ value := by
  have hfolded := readHex_folded fold h.ascii h.head
  dsimp only at hfolded
  rw [hread] at hfolded
  split at hfolded
  · cases hfolded
  · split at hfolded
    · cases hfolded
      exact Int.natCast_nonneg _
    · cases hfolded

end LineLexer.Numeral
