import LineLexer.Numeral.Real
import LineLexer.Proofs.JsonNumber
import LineLexer.Proofs.RealReading
import LineLexer.Proofs.Rounding
import Mathlib.Data.Nat.Bitwise

/-!
# `LineLexer.Proofs.WrittenReals`: a written number reads back

A report writes the value of a real number token as a decimal, in one of
four layouts. This module shows that the reader of real numerals gets the
same number back from the text, to the last bit and with its sign, so no
report loses anything of a finite value.

The argument has two halves, which meet at the value of the decimal as a
rational. Whatever the layout, the text is read as a decimal of that value
(`Decimal.isReadFrom_write`). Every decimal of that value is rounded to
the number, by the interval of `LineLexer.Proofs.Rounding`. The decimals
themselves need not be the same: zeros that fill the places before the
point come back as digits.

* `Numeral.decimalValue_toDigits`: digits are read as the number that was
  written.
* `Decimal.isReadFrom_write`: a decimal is read back in every layout.
* `Binary64.signed_unsigned`: a number is its sign and its magnitude.
* `Binary64.readReal_write`: a finite number is read back.
-/

set_option autoImplicit false

namespace LineLexer

open Lexeme (takeWhile_append_stop dropWhile_append_stop)
open Json (areDigits areDigits_iff areDigits_toDigits areDigits_zeros)

/-! ### Digits -/

namespace Numeral

/-- The number that digits write is the one that the core library reads
from them. Its laws for appended digits are used through this. -/
theorem decimalValue_eq_ofDigitChars (digits : List Char) :
    decimalValue digits = Nat.ofDigitChars 10 digits 0 := by
  rw [decimalValue, Nat.ofDigitChars_eq_foldl]
  simp only [Nat.mul_comm]

/-- Digits behind others move those by as many places. -/
theorem decimalValue_append (front back : List Char) :
    decimalValue (front ++ back) = decimalValue front * 10 ^ back.length + decimalValue back := by
  simp only [decimalValue_eq_ofDigitChars]
  rw [Nat.ofDigitChars_append, Nat.ofDigitChars_eq_ofDigitChars_zero, Nat.mul_comm]

/-- Zeros alone write zero, however many there are. -/
theorem decimalValue_zeros (count : Nat) : decimalValue (List.replicate count '0') = 0 := by
  induction count with
  | zero => rfl
  | succ count ih =>
    have hzero : decimalValue ['0'] = 0 := rfl
    rw [List.replicate_succ', decimalValue_append, ih, hzero, Nat.zero_mul]

/-- The digits of a number in base ten are read as that number. This is
why a written significand comes back as it was. -/
theorem decimalValue_toDigits (n : Nat) : decimalValue (Nat.toDigits 10 n) = n := by
  rw [decimalValue_eq_ofDigitChars]
  exact Nat.ofDigitChars_ten_toDigits

/-! ### The parts of a numeral -/

/-- An exponent behind its marker, with a sign in front of its digits, is
read as the integer that was written. -/
theorem exponent?_written (n : Int) :
    exponent? ('e' :: (if n < 0 then '-' else '+') :: Nat.toDigits 10 n.natAbs) = some n := by
  have hall := List.all_eq_true.mpr (areDigits_iff.mp (areDigits_toDigits n.natAbs)).2
  have hempty : (Nat.toDigits 10 n.natAbs).isEmpty = false := by simp
  split
  · next hneg =>
    have hvalue : -(n.natAbs : Int) = n := by omega
    simpa [exponent?, splitSign, hempty, hall, decimalValue_toDigits] using hvalue
  · next hpos =>
    have hvalue : (n.natAbs : Int) = n := by omega
    simpa [exponent?, splitSign, hempty, hall, decimalValue_toDigits] using hvalue

section Parts
variable {whole rest : List Char} {exponent : Int}

/-- Digits with an exponent, and no point, are read as those digits and
that exponent. -/
theorem decimal?_whole (hwhole : areDigits whole = true)
    (hrest : ∀ c ∈ rest.head?, c.isDigit = false ∧ c ≠ '.')
    (hexponent : exponent? rest = some exponent) :
    decimal? (whole ++ rest) = some (.ofDecimal (decimalValue whole) exponent) := by
  obtain ⟨hne, hdigits⟩ := areDigits_iff.mp hwhole
  have hempty : whole.isEmpty = false := by simpa using hne
  have hstop : ∀ c ∈ rest.head?, c.isDigit = false := fun c hc => (hrest c hc).1
  rw [decimal?]
  dsimp only
  rw [takeWhile_append_stop hdigits hstop, dropWhile_append_stop hdigits hstop, hempty]
  split
  · next more heq => exact absurd rfl (hrest '.' (Option.mem_def.mpr rfl)).2
  · simp [hexponent]

/-- Digits with a point among them are read as all of the digits, and an
exponent that is less by the number of digits behind the point. -/
theorem decimal?_fraction (fraction rest : List Char) (hwhole : areDigits whole = true)
    (hfraction : ∀ c ∈ fraction, c.isDigit = true)
    (hrest : ∀ c ∈ rest.head?, c.isDigit = false) (hexponent : exponent? rest = some exponent) :
    decimal? (whole ++ '.' :: (fraction ++ rest))
      = some (.ofDecimal (decimalValue (whole ++ fraction)) (exponent - fraction.length)) := by
  obtain ⟨hne, hdigits⟩ := areDigits_iff.mp hwhole
  have hempty : whole.isEmpty = false := by simpa using hne
  have hstop : ∀ c ∈ ('.' :: (fraction ++ rest)).head?, c.isDigit = false := by simp
  rw [decimal?]
  dsimp only
  rw [takeWhile_append_stop hdigits hstop, dropWhile_append_stop hdigits hstop, hempty]
  simp only [takeWhile_append_stop hfraction hrest, dropWhile_append_stop hfraction hrest,
    hexponent]
  rfl

end Parts

end Numeral

/-! ### The layouts of a decimal -/

open Numeral

/-- A text that is read as a decimal of the same value. What stands for
the digits and what for the exponent may differ. -/
def Decimal.IsReadFrom (d : Decimal) (text : List Char) : Prop :=
  ∃ found : Decimal, decimal? text = some (.ofDecimal found.digits found.exponent) ∧
    found.value = d.value

namespace Decimal

section Layouts
variable {d : Decimal} {digits : List Char}

/-- A decimal that fills the places up to the point with zeros is read
back. The zeros come back as digits, in place of the exponent. -/
theorem isReadFrom_filled (h : areDigits digits = true) (hvalue : decimalValue digits = d.digits)
    (hexponent : 0 ≤ d.exponent) :
    d.IsReadFrom (digits ++ List.replicate d.exponent.toNat '0' ++ ['.', '0']) := by
  have hread := decimal?_fraction ['0'] [] (areDigits_zeros h d.exponent.toNat).1
    (by simp) (by simp) rfl
  have hplace : (0 : Int) - (['0'] : List Char).length = -1 := rfl
  rw [List.append_nil, hplace] at hread
  refine ⟨⟨decimalValue (digits ++ List.replicate d.exponent.toNat '0' ++ ['0']), -1⟩,
    hread, ?_⟩
  have hzero : decimalValue ['0'] = 0 := rfl
  have hpower : (10 : ℚ) ^ d.exponent = 10 ^ d.exponent.toNat := by
    rw [← zpow_natCast, Int.toNat_of_nonneg hexponent]
  rw [value, value, decimalValue_append, decimalValue_append, hvalue, decimalValue_zeros, hzero,
    List.length_replicate, hpower, zpow_neg_one]
  push_cast
  field_simp
  simp

/-- A decimal with the point among its digits is read back. -/
theorem isReadFrom_split (h : areDigits digits = true) (hvalue : decimalValue digits = d.digits)
    {count : Nat} (hpos : 0 < count) (hcount : d.exponent = count - digits.length)
    (hlt : count < digits.length) :
    d.IsReadFrom (digits.take count ++ '.' :: digits.drop count) := by
  obtain ⟨hne, hdigits⟩ := areDigits_iff.mp h
  have hfront : areDigits (digits.take count) = true :=
    areDigits_iff.mpr ⟨by simp [hne, Nat.ne_of_gt hpos],
      fun c hc => hdigits c (List.mem_of_mem_take hc)⟩
  have hread := decimal?_fraction (digits.drop count) [] hfront
    (fun c hc => hdigits c (List.mem_of_mem_drop hc)) (by simp) rfl
  have hplaces : (0 : Int) - (digits.drop count).length = d.exponent := by
    rw [List.length_drop]
    omega
  rw [List.append_nil, List.take_append_drop, hvalue, hplaces] at hread
  exact ⟨d, hread, rfl⟩

/-- A decimal with the point in front of all of its digits is read back. -/
theorem isReadFrom_below (h : areDigits digits = true) (hvalue : decimalValue digits = d.digits)
    {count : Nat} (hcount : d.exponent = -(count + digits.length : Int)) :
    d.IsReadFrom (['0', '.'] ++ List.replicate count '0' ++ digits) := by
  have hzero : areDigits ['0'] = true := rfl
  have hfraction := (areDigits_iff.mp (areDigits_zeros h count).2).2
  have hread := decimal?_fraction _ [] hzero hfraction (by simp) rfl
  have hplaces : (0 : Int) - (List.replicate count '0' ++ digits).length = d.exponent := by
    rw [List.length_append, List.length_replicate]
    omega
  have hall : decimalValue (['0'] ++ (List.replicate count '0' ++ digits)) = d.digits := by
    rw [← List.append_assoc, ← List.replicate_one, List.replicate_append_replicate,
      decimalValue_append, decimalValue_zeros, Nat.zero_mul, Nat.zero_add, hvalue]
  rw [List.append_nil, hall, hplaces] at hread
  exact ⟨d, hread, rfl⟩

/-- A decimal with an exponent is read back, with a point behind its first
digit or without one. -/
theorem isReadFrom_scientific {c : Char} (h : areDigits (c :: digits) = true)
    (hvalue : decimalValue (c :: digits) = d.digits) {first : Int}
    (hfirst : first = d.exponent + digits.length) :
    d.IsReadFrom (c :: ((if digits.isEmpty then [] else ['.']) ++ digits
      ++ 'e' :: (if first < 0 then '-' else '+') :: Nat.toDigits 10 first.natAbs)) := by
  have hexponent := exponent?_written first
  have hdigits := (areDigits_iff.mp h).2
  have hc : areDigits [c] = true := by simpa [areDigits] using hdigits c List.mem_cons_self
  have hplaces : first - digits.length = d.exponent := by omega
  cases digits with
  | nil =>
    have hread := decimal?_whole hc (by simp) hexponent
    have hsame : first = d.exponent := by simpa using hplaces
    rw [hvalue] at hread
    exact ⟨d, hsame ▸ hread, rfl⟩
  | cons c' more =>
    have hread := decimal?_fraction (c' :: more) _ hc
      (fun x hx => hdigits x (List.mem_cons_of_mem _ hx)) (by simp) hexponent
    have hall : decimalValue ([c] ++ c' :: more) = d.digits := hvalue
    rw [hall, hplaces] at hread
    exact ⟨d, hread, rfl⟩

end Layouts

/-- A decimal is read back from its text, whatever the style. The style
only chooses among the layouts, by the exponent of the first digit. -/
theorem isReadFrom_write (d : Decimal) (style : Decimal.Style) :
    d.IsReadFrom (d.write style).toList := by
  have hdigits := areDigits_toDigits d.digits
  have hvalue := decimalValue_toDigits d.digits
  have hlength : 0 < (Nat.toDigits 10 d.digits).length := Nat.length_toDigits_pos
  rw [Decimal.write]
  generalize Nat.toDigits 10 d.digits = digits at hdigits hvalue hlength
  dsimp only
  -- One layout for each place of the first digit.
  generalize hfirst : d.exponent + (digits.length : Int) - 1 = first
  split
  · split
    · next hexponent =>
      rw [String.toList_ofList]
      exact isReadFrom_filled hdigits hvalue hexponent
    · split
      · rw [String.toList_ofList]
        exact isReadFrom_split hdigits hvalue (Nat.succ_pos _) (by omega) (by omega)
      · rw [String.toList_ofList]
        exact isReadFrom_below hdigits hvalue (by omega)
  · obtain ⟨c, more, rfl⟩ := List.exists_cons_of_length_pos hlength
    have hplaces : first = d.exponent + more.length := by
      rw [List.length_cons] at hfirst
      omega
    rw [String.toList_ofList]
    simpa using isReadFrom_scientific hdigits hvalue hplaces

end Decimal

/-! ### Signs -/

namespace Binary64

/-- The sign of a number is its highest bit. -/
theorem isNegative_eq_testBit (x : Binary64) : x.isNegative = x.bits.toNat.testBit 63 := by
  have hsignBit : signBit.toNat = 2 ^ 63 := rfl
  have hand : (x.bits &&& signBit).toNat = (x.bits.toNat.testBit 63).toNat * 2 ^ 63 := by
    rw [UInt64.toNat_and, hsignBit, Nat.and_two_pow]
  cases htop : x.bits.toNat.testBit 63 with
  | true =>
    have hne : x.bits &&& signBit ≠ 0 := by
      intro heq
      rw [htop, heq] at hand
      cases hand
    simpa [isNegative] using hne
  | false =>
    rw [htop] at hand
    have heq : x.bits &&& signBit = 0 := UInt64.toNat_inj.mp hand
    simp [isNegative, heq]

/-- A number whose sign is taken away and put back is the same number. This
is about the bits, so it holds of zeros and of NaNs too. -/
theorem signed_unsigned (x : Binary64) : x.unsigned.signed x.isNegative = x := by
  have hsignBit : signBit.toNat = 2 ^ 63 := rfl
  have hmagnitude : x.magnitude < 2 ^ 63 := Nat.mod_lt _ (by decide)
  have hunsigned : x.unsigned.bits.toNat = x.bits.toNat % 2 ^ 63 :=
    Nat.mod_eq_of_lt (Nat.lt_trans hmagnitude (by decide))
  suffices hbits : (x.unsigned.signed x.isNegative).bits = x.bits from congrArg Binary64.mk hbits
  -- The two agree bit by bit: below the sign, at it, and beyond the sixty-four.
  refine UInt64.toNat_inj.mp (Nat.eq_of_testBit_eq fun i => ?_)
  have hrange : 63 < i → x.bits.toNat.testBit i = false := fun hi =>
    Nat.testBit_lt_two_pow (Nat.lt_of_lt_of_le x.bits.toNat_lt
      (Nat.pow_le_pow_right (by decide) hi))
  rw [isNegative_eq_testBit]
  cases htop : x.bits.toNat.testBit 63 with
  | true =>
    rw [signed_true, neg, UInt64.toNat_xor, hunsigned, hsignBit, Nat.testBit_xor,
      Nat.testBit_mod_two_pow, Nat.testBit_two_pow]
    rcases Nat.lt_trichotomy i 63 with hi | rfl | hi
    · simp [hi, Nat.ne_of_gt hi]
    · simp [htop]
    · simp [hrange hi, Nat.ne_of_lt hi]
  | false =>
    rw [signed_false, hunsigned, Nat.testBit_mod_two_pow]
    rcases Nat.lt_trichotomy i 63 with hi | rfl | hi
    · simp [hi]
    · simp [htop]
    · simp [hrange hi]

/-- Zeros are the numbers without magnitude. -/
theorem unsigned_of_magnitude_eq_zero {x : Binary64} (h : x.magnitude = 0) : x.unsigned = zero := by
  rw [unsigned, h]
  rfl

/-! ### Reading back -/

/-- A JSON number with a minus sign or without one is read as the decimal
behind the sign, with that sign. It is no word for infinity or NaN, and
there is no underscore in it that would be another minus sign. -/
theorem readReal_of_isUnsigned {text : String} (h : Json.isUnsigned text.toList = true)
    {value : Binary64} (hvalue : decimal? text.toList = some value) ( negative : Bool) :
    readReal ((if negative then "-" else "") ++ text) = .ok (value.signed negative) := by
  obtain ⟨c, rest, htext, hc⟩ := Json.isDigit_of_isUnsigned h
  have hwords := (Json.isWordChar_of_isNumber (Json.isNumber_of_isUnsigned h).1).2
  have hspelled : (text.toList.map fun c => if c = '_' then '-' else c) = text.toList := by
    refine (List.map_congr_left fun c hc => if_neg ?_).trans (List.map_id _)
    rintro rfl
    exact absurd (hwords '_' hc) (by decide)
  have hhead : c ≠ '+' ∧ c ≠ '-' ∧ c.toLower ≠ 'i' ∧ c.toLower ≠ 'n' := by
    have hle : c.val ≤ '9'.val := of_decide_eq_true (Bool.and_eq_true_iff.mp hc).2
    have hlower : c.toLower = c :=
      dif_neg fun hupper => absurd (UInt32.le_trans hupper.1 hle) (by decide)
    rw [hlower]
    refine ⟨?_, ?_, ?_, ?_⟩ <;> rintro rfl <;> cases hc
  have hmagnitude : magnitude? text.toList = some value := by
    rw [magnitude?_eq_decimal?, hvalue]
    rw [htext]
    rintro c' hc'
    cases hc'
    exact hhead.2.2
  have hsign : splitSign text.toList = (false, text.toList) := by
    refine splitSign_of_head ?_
    rw [htext]
    rintro c' hc'
    cases hc'
    exact ⟨hhead.1, hhead.2.1⟩
  cases negative with
  | false => simp [readReal, hspelled, hsign, hmagnitude]
  | true => simp [readReal, hspelled, splitSign, hmagnitude]

/-- **A finite number is read back from its text.** The text is the same
in every style but for its layout, and the reader gets the number from it
with all of its bits. -/
theorem readReal_write (style : Decimal.Style) {x : Binary64} (hfinite : x.isFinite = true) :
    readReal (x.write style) = .ok x := by
  rw [write]
  split
  · next hzero =>
    have htext : Json.isUnsigned "0.0".toList = true := by decide
    have hread : decimal? "0.0".toList = some zero := rfl
    rw [readReal_of_isUnsigned htext hread, ← unsigned_of_magnitude_eq_zero hzero,
      signed_unsigned]
  · next hx =>
    obtain ⟨found, hread, hvalue⟩ := x.shortest.isReadFrom_write style
    have hcontains := contains_shortest hfinite hx
    rw [← hvalue] at hcontains
    rw [ofDecimal_of_contains hfinite hx hcontains] at hread
    have hunsigned := Json.isUnsigned_write style (Json.digits_shortest_pos hx)
    rw [readReal_of_isUnsigned hunsigned hread, signed_unsigned]

end Binary64

end LineLexer
