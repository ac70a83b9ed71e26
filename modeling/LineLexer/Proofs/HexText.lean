import Mathlib.Data.List.TakeWhile
import Mathlib.Data.Nat.Digits.Defs
import LineLexer.Numeral.Hex
import LineLexer.Numeral.Real

/-!
# `LineLexer.Proofs.HexText`: what any text is worth as a hexadecimal number

The texts that the scanner reads as hexadecimal numbers have no sign,
but `readHex` takes any text: with a sign, with markers anywhere, with
characters of any kind. It looks at the value after every digit, going
up for a positive number and down for a negative one, and stops at the
first problem that it meets.

So the order of the problems decides. A digit that takes the value out
of range hides a bad character behind it, and the other way round; and
since there is one integer more below zero than above, the same digits
can be in range with a minus sign and out of range without it.

* `hexWorth?`, `hexNumber`: what a digit is worth, and the number that
  digits write, of any size.
* `hexDigit?_eq_hexWorth?`: the digits are those of either case.
* `hexDigits?_behind`: what more characters come to behind digits that
  have been read, for both signs.
* `HexMeaning`: the mathematical reading of a text, case by case.
* `hexMeaning_readHex`: every text is read as its mathematical reading
  says.
-/

set_option autoImplicit false

namespace LineLexer.Numeral

/-! ### Digits and the numbers that they write -/

/-- What a character is worth as a hexadecimal digit: its place among
the sixteen digits, which have small letters. -/
def hexWorth? (c : Char) : Option Nat := "0123456789abcdef".toList.idxOf? c.toLower

/-- Whether a character is a hexadecimal digit of either case. -/
def isHexDigitChar (c : Char) : Bool := (hexWorth? c).isSome

/-- The number that hexadecimal digits write, of any size. The first digit
is worth most. -/
def hexNumber (digits : List Char) : Nat :=
  Nat.ofDigits 16 (digits.map fun c => (hexWorth? c).getD 0).reverse

/-- A natural number with a minus sign, if the flag is set. -/
def withSign (negative : Bool) (n : Nat) : Int := if negative then -(n : Int) else n

/-- A character that is not ASCII is its own small letter. -/
theorem toLower_of_high {c : Char} (h : 0x80 ≤ c.toNat) : c.toLower = c := by
  unfold Char.toLower
  rw [dif_neg]
  rintro ⟨-, hz⟩
  have hle : c.toNat ≤ 'Z'.toNat := hz
  have hlast : 'Z'.toNat = 90 := rfl
  omega

/-- The digits that the reader knows are the hexadecimal digits, with the
same worth. -/
theorem hexDigit?_eq_hexWorth? (c : Char) : hexDigit? c = hexWorth? c := by
  by_cases hc : c.toNat < 0x80
  · have hascii : ∀ n < 0x80, hexDigit? (Char.ofNat n) = hexWorth? (Char.ofNat n) := by
      decide +kernel
    rw [← Char.ofNat_toNat c]
    exact hascii c.toNat hc
  · -- No digit is that far up.
    have hhigh : 0x80 ≤ c.toNat := Nat.not_lt.mp hc
    have hdigits : ("0123456789abcdef".toList.all fun d => d.toNat < 0x80) = true := by decide
    have hle : ∀ d : Char, d.toNat < 0x80 → ¬ c ≤ d := by
      intro d hd hle
      have hcd : c.toNat ≤ d.toNat := hle
      omega
    have hworth : hexWorth? c = none := by
      rw [hexWorth?, toLower_of_high hhigh, List.idxOf?_eq_none_iff]
      intro hmem
      exact hc (of_decide_eq_true (List.all_eq_true.mp hdigits c hmem))
    rw [hworth, hexDigit?, if_neg fun h => hle '9' (by decide) h.2,
      if_neg fun h => hle 'f' (by decide) h.2, if_neg fun h => hle 'F' (by decide) h.2]

/-- Digits in front of others are worth as many powers of sixteen more as
there are others. What a digit is worth does not matter for this. -/
theorem ofDigits_map_append {α : Type} (worth : α → Nat) (front more : List α) :
    Nat.ofDigits 16 ((front ++ more).map worth).reverse
      = Nat.ofDigits 16 (front.map worth).reverse * 16 ^ more.length
        + Nat.ofDigits 16 (more.map worth).reverse := by
  simp only [List.map_append, List.reverse_append, Nat.ofDigits_append, List.length_reverse,
    List.length_map]
  rw [Nat.mul_comm, Nat.add_comm]

section Number
variable (front more : List Char)

/-- A hexadecimal digit behind others multiplies the number that they
write by sixteen and is added to it. -/
theorem hexNumber_concat {c : Char} {digit : Nat} (h : hexWorth? c = some digit) :
    hexNumber (front ++ [c]) = hexNumber front * 16 + digit := by
  rw [hexNumber, ofDigits_map_append]
  simp [hexNumber, h]

/-- Digits behind others make a number that is no smaller. -/
theorem hexNumber_le_append : hexNumber front ≤ hexNumber (front ++ more) := by
  rw [hexNumber, hexNumber, ofDigits_map_append]
  have hpos : 0 < 16 ^ more.length := Nat.pow_pos (by decide)
  exact Nat.le_trans (Nat.le_mul_of_pos_right _ hpos) (Nat.le_add_right ..)

end Number

/-! ### Digits from left to right -/

/-- The 64-bit integers are those from `-2 ^ 63` up to, and not including,
`2 ^ 63`. -/
theorem isInteger64_iff (v : Int) : isInteger64 v = true ↔ -2 ^ 63 ≤ v ∧ v < 2 ^ 63 := by
  rw [isInteger64, Bool.and_eq_true, decide_eq_true_iff, decide_eq_true_iff, minInteger, maxInteger]
  omega

/-- If a number is a 64-bit integer with its sign, so is every smaller
number with that sign. -/
theorem isInteger64_withSign_of_le {negative : Bool} {n larger : Nat} (hle : n ≤ larger)
    (h : isInteger64 (withSign negative larger) = true) :
    isInteger64 (withSign negative n) = true := by
  rw [isInteger64_iff, withSign] at h ⊢
  cases negative with
  | false =>
    rw [if_neg (by decide)] at h ⊢
    omega
  | true =>
    rw [if_pos rfl] at h ⊢
    omega

section Steps
variable {negative : Bool} {front more : List Char}

/-- A number that is no 64-bit integer with its sign does not become one
with more digits behind it. So the first overflow decides. -/
theorem isInteger64_append
    (h : isInteger64 (withSign negative (hexNumber front)) = false) :
    isInteger64 (withSign negative (hexNumber (front ++ more))) = false := by
  rw [Bool.eq_false_iff] at h ⊢
  exact mt (isInteger64_withSign_of_le (hexNumber_le_append ..)) h

/-- The step of the reader at a digit: it subtracts the digit behind a
minus sign and adds it without one, which is the next number with the
sign. -/
theorem withSign_concat {c : Char} {digit : Nat} (h : hexWorth? c = some digit) :
    (if negative = true then withSign negative (hexNumber front) * 16 - digit
      else withSign negative (hexNumber front) * 16 + digit)
      = withSign negative (hexNumber (front ++ [c])) := by
  rw [hexNumber_concat front h]
  cases negative with
  | false =>
    rw [if_neg (by decide)]
    rfl
  | true =>
    simp only [withSign, if_true]
    omega

end Steps

/-- What characters come to behind digits that have been read. The digits
at their front take the value out of range, or a character behind those is
no digit, or all of them are digits and in range. The proof is by
induction on the characters. -/
theorem hexDigits?_behind (negative : Bool) (front rest : List Char)
    (hfront : isInteger64 (withSign negative (hexNumber front)) = true) :
    hexDigits? negative (withSign negative (hexNumber front)) rest
      = if isInteger64
            (withSign negative (hexNumber (front ++ rest.takeWhile isHexDigitChar))) = false then
          .error (if negative then .malformed else .hexOutOfRange)
        else if rest.all isHexDigitChar then
          .ok (withSign negative (hexNumber (front ++ rest)))
        else .error .malformed := by
  -- The induction moves one digit after the other to those in front.
  induction rest generalizing front with
  | nil =>
    have hnot : ¬ isInteger64 (withSign negative (hexNumber front)) = false := by simp [hfront]
    rw [List.takeWhile_nil, List.append_nil, if_neg hnot]
    rfl
  | cons c rest ih =>
    rw [hexDigits?, hexDigit?_eq_hexWorth?]
    cases hworth : hexWorth? c with
    | none =>
      have hc : isHexDigitChar c = false := by
        rw [isHexDigitChar, hworth]
        rfl
      have hnot : ¬ isInteger64 (withSign negative (hexNumber front)) = false := by simp [hfront]
      rw [List.takeWhile_cons_of_neg (by simp [hc]), List.append_nil, if_neg hnot,
        List.all_cons, hc]
      rfl
    | some digit =>
      have hc : isHexDigitChar c = true := by
        rw [isHexDigitChar, hworth]
        rfl
      rw [List.takeWhile_cons_of_pos hc, List.all_cons, hc, Bool.true_and,
        List.append_cons front c rest, List.append_cons front c]
      simp only [withSign_concat hworth]
      cases hsmall : isInteger64 (withSign negative (hexNumber (front ++ [c]))) with
      | true => rw [if_pos rfl, ih _ hsmall]
      -- The digits behind make the number no smaller.
      | false => rw [if_neg (by decide), if_pos (isInteger64_append hsmall)]

/-! ### The whole text -/

/-- What a text comes to as a hexadecimal number that has the digits
`digits` behind its sign and its markers. -/
structure HexMeaning (text : String) (negative : Bool) (digits : List Char)
    (result : Except NumeralFault Int) : Prop where
  inRange : digits ≠ [] → (∀ c ∈ digits, isHexDigitChar c = true) →
    -2 ^ 63 ≤ withSign negative (hexNumber digits) → withSign negative (hexNumber digits) < 2 ^ 63 →
    result = .ok (withSign negative (hexNumber digits))
  above : digits ≠ [] → (∀ c ∈ digits, isHexDigitChar c = true) →
    2 ^ 63 ≤ withSign negative (hexNumber digits) → result = .error ⟨.hexOutOfRange, text⟩
  below : digits ≠ [] → (∀ c ∈ digits, isHexDigitChar c = true) →
    withSign negative (hexNumber digits) < -2 ^ 63 → result = .error ⟨.malformed, text⟩
  /-- The digits in front of the first bad character are out of range on
  their own. Only for a positive number does this come first. -/
  brokenAbove : (digits = [] ∨ ∃ c ∈ digits, isHexDigitChar c = false) → negative = false →
    2 ^ 63 ≤ hexNumber (digits.takeWhile isHexDigitChar) → result = .error ⟨.hexOutOfRange, text⟩
  broken : (digits = [] ∨ ∃ c ∈ digits, isHexDigitChar c = false) →
    ¬ (negative = false ∧ 2 ^ 63 ≤ hexNumber (digits.takeWhile isHexDigitChar)) →
    result = .error ⟨.malformed, text⟩

section Read
variable {negative : Bool} {digits : List Char}

/-- What stands behind a sign is read from left to right, if it is not
empty. It comes to the first of the problems that is met. -/
theorem signedHex?_eq (hne : digits ≠ []) :
    signedHex? negative digits
      = if isInteger64
            (withSign negative (hexNumber (digits.takeWhile isHexDigitChar))) = false then
          .error (if negative then .malformed else .hexOutOfRange)
        else if digits.all isHexDigitChar then .ok (withSign negative (hexNumber digits))
        else .error .malformed := by
  have hzero : (0 : Int) = withSign negative (hexNumber []) := by cases negative <;> rfl
  rw [signedHex?, if_neg (by simpa using hne), hzero]
  exact hexDigits?_behind negative [] digits (by cases negative <;> rfl)

/-- Digits behind a sign are read as the number that they write. If it is
out of range, the wording depends on the sign. -/
theorem signedHex?_of_digits (hne : digits ≠ []) (hall : ∀ c ∈ digits, isHexDigitChar c = true) :
    signedHex? negative digits
      = if isInteger64 (withSign negative (hexNumber digits)) = true then
          .ok (withSign negative (hexNumber digits))
        else .error (if negative then .malformed else .hexOutOfRange) := by
  rw [signedHex?_eq hne, List.takeWhile_eq_self_iff.mpr hall, if_pos (List.all_eq_true.mpr hall)]
  cases isInteger64 (withSign negative (hexNumber digits)) <;> rfl

/-- A text behind a sign that is empty, or has a character that is no
digit, is malformed. Only if the digits in front of that character are out
of range on their own, and the number is positive, is it out of range. -/
theorem signedHex?_of_broken (hbroken : digits = [] ∨ ∃ c ∈ digits, isHexDigitChar c = false) :
    signedHex? negative digits
      = .error (if negative = false ∧ 2 ^ 63 ≤ hexNumber (digits.takeWhile isHexDigitChar)
          then .hexOutOfRange else .malformed) := by
  rcases hbroken with rfl | ⟨c, hmem, hc⟩
  · rw [if_neg (by decide +revert)]
    rfl
  · have hall : ¬ digits.all isHexDigitChar = true := by
      rw [List.all_eq_true]
      intro hall
      rw [hall c hmem] at hc
      cases hc
    rw [signedHex?_eq (List.ne_nil_of_mem hmem), if_neg hall]
    cases negative with
    | true => simp
    | false =>
      have hlarge : isInteger64 (withSign false (hexNumber (digits.takeWhile isHexDigitChar)))
          = false ↔ 2 ^ 63 ≤ hexNumber (digits.takeWhile isHexDigitChar) := by
        rw [Bool.eq_false_iff, Ne, isInteger64_iff, withSign, if_neg (by decide)]
        omega
      simp only [hlarge, true_and, Bool.false_eq_true, if_false]
      split <;> rfl

end Read

/-- Every text behind a sign comes to what it means, whichever of the
cases it falls in. -/
theorem hexMeaning_signedHex? (text : String) (negative : Bool) (digits : List Char) :
    HexMeaning text negative digits
      ((signedHex? negative digits).mapError fun kind => ⟨kind, text⟩) where
  inRange hne hall hlow hhigh := by
    rw [signedHex?_of_digits hne hall, if_pos ((isInteger64_iff _).mpr ⟨hlow, hhigh⟩)]
    rfl
  above hne hall habove := by
    have hnot : ¬ isInteger64 (withSign negative (hexNumber digits)) = true := by
      rw [isInteger64_iff]
      omega
    -- What is above the range has no minus sign.
    have hpositive : negative = false := by
      cases negative with
      | false => rfl
      | true =>
        rw [withSign, if_pos rfl] at habove
        omega
    rw [signedHex?_of_digits hne hall, if_neg hnot, hpositive]
    rfl
  below hne hall hbelow := by
    have hnot : ¬ isInteger64 (withSign negative (hexNumber digits)) = true := by
      rw [isInteger64_iff]
      omega
    -- What is below the range has one.
    have hnegative : negative = true := by
      cases negative with
      | true => rfl
      | false =>
        rw [withSign, if_neg (by decide)] at hbelow
        omega
    rw [signedHex?_of_digits hne hall, if_neg hnot, hnegative]
    rfl
  brokenAbove hbroken hpositive hlarge := by
    rw [signedHex?_of_broken hbroken, if_pos ⟨hpositive, hlarge⟩]
    rfl
  broken hbroken hnot := by
    rw [signedHex?_of_broken hbroken, if_neg hnot]
    rfl

/-- A text that is not empty without its markers has a sign, if there is
one, and is read behind that. -/
theorem readHex_eq {text : String} {unmarked : List Char}
    (h : (text.toList.filter fun c => !isHexMarker c) = unmarked) (hne : unmarked ≠ []) :
    readHex text
      = (signedHex? (splitSign unmarked).1 (splitSign unmarked).2).mapError
          fun kind => ⟨kind, text⟩ := by
  rw [readHex, h]
  split
  · exact absurd rfl hne
  · rfl
  · rfl
  · next hplus hminus =>
    -- Neither of the two signs stands in front.
    rw [splitSign_of_head]
    intro c hc
    obtain ⟨rest, rfl⟩ := List.head?_eq_some_iff.mp hc
    exact ⟨fun heq => hplus rest (congrArg (· :: rest) heq),
      fun heq => hminus rest (congrArg (· :: rest) heq)⟩

/-- Every text comes to what it means: without the markers it is empty,
which is zero, or it is a sign, if there is one, and what stands behind
that. The first problem from the front is the one that is reported. -/
theorem hexMeaning_readHex (text : String) :
    let unmarked := text.toList.filter fun c => c != 'x' && c != 'X'
    (unmarked = [] → readHex text = .ok 0) ∧
      (unmarked ≠ [] →
        HexMeaning text (splitSign unmarked).1 (splitSign unmarked).2 (readHex text)) := by
  intro unmarked
  have hunmarked : (text.toList.filter fun c => !isHexMarker c) = unmarked := by
    refine List.filter_congr fun c _ => ?_
    exact Bool.not_or ..
  refine ⟨fun hempty => ?_, fun hne => ?_⟩
  · rw [readHex, hunmarked, hempty]
    rfl
  · rw [readHex_eq hunmarked hne]
    exact hexMeaning_signedHex? text _ _

-- There is one integer more below zero than above, and of two problems the first decides.
example : readHex "-0x8000000000000000" = .ok (-2 ^ 63) ∧
    readHex "g8000000000000000" = .error ⟨.malformed, "g8000000000000000"⟩ ∧
    readHex "8000000000000000g" = .error ⟨.hexOutOfRange, "8000000000000000g"⟩ := by
  decide +kernel

end LineLexer.Numeral
