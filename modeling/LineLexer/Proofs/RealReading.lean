import LineLexer.Proofs.Exchange
import LineLexer.Proofs.Grammar
import LineLexer.Proofs.NumeralText

/-!
# `LineLexer.Proofs.RealReading`: which texts are real numbers

The text of a number without hexadecimal marker has three parts: the
digits in front, a point with the digits behind it, and an exponent.
Such a text has a value as a real number exactly if one of the first
two parts has a digit.

* `exponent?_isSome`: the exponent is always read.
* `decimal?_isSome`: when the parts make a number.
* `readReal_of_parts`: when the text does.
-/

set_option autoImplicit false

namespace LineLexer.Numeral

open Ascii Grammar

/-- The character that is read for a byte of a number's text. An
underscore is read as a minus sign. -/
def spelled (b : UInt8) : Char :=
  if Char.ofNat b.toNat = '_' then '-' else Char.ofNat b.toNat

section Spelled
variable {b : UInt8}

/-- A decimal digit is read as a digit. -/
theorem isDigit_spelled (h : isDigit b = true) : (spelled b).isDigit = true := by
  revert b
  apply forall_byte
  decide +kernel

/-- A sign or an underscore is read as one of the two signs. -/
theorem spelled_of_isSignByte (h : isSignByte b = true) : spelled b = '+' ∨ spelled b = '-' := by
  revert b
  apply forall_byte
  decide +kernel

/-- What no part of a number but a sign begins with is no sign, and no
letter that a word for infinity or NaN begins with. -/
theorem spelled_of_front (h : isDigit b = true ∨ b = '.'.toUInt8 ∨ b = 'E'.toUInt8) :
    spelled b ≠ '+' ∧ spelled b ≠ '-' ∧ (spelled b).toLower ≠ 'i' ∧ (spelled b).toLower ≠ 'n' := by
  revert b
  apply forall_byte
  decide +kernel

end Spelled

/-- Decimal digits are read as digits, all of them. -/
theorem all_isDigit_spelled {ds : List UInt8} (h : ∀ b ∈ ds, isDigit b = true) :
    ∀ c ∈ ds.map spelled, c.isDigit = true := by
  intro c hc
  obtain ⟨b, hb, rfl⟩ := List.mem_map.mp hc
  exact isDigit_spelled (h b hb)

/-! ### The parts -/

section Parts
variable {whole fraction exponent : List UInt8}

/-- An exponent of the grammar is always read, with either spelling of its
sign. -/
theorem exponent?_isSome (h : exponent ∈ optional capitalExponent) :
    (exponent? (exponent.map spelled)).isSome = true := by
  rcases mem_optional.mp h with rfl | h
  · rfl
  obtain ⟨e, s, ds, he, hs, hds, rfl⟩ := mem_exponentWith.mp h
  obtain rfl := beq_iff_eq.mp he
  obtain ⟨hne, hall⟩ := mem_digits.mp hds
  have hdigits := all_isDigit_spelled hall
  -- With or without a sign in front, the digits are what is left behind it.
  have hsplit : (splitSign ((s ++ ds).map spelled)).2 = ds.map spelled := by
    rcases mem_optional_byte.mp hs with rfl | ⟨b, hb, rfl⟩
    · rw [List.nil_append, splitSign_of_head]
      intro c hc
      obtain ⟨d, more, rfl⟩ := List.exists_cons_of_ne_nil hne
      cases hc
      obtain ⟨hplus, hminus, -⟩ := spelled_of_front (Or.inl (hall d List.mem_cons_self))
      exact ⟨hplus, hminus⟩
    · rw [List.singleton_append, List.map_cons]
      rcases spelled_of_isSignByte hb with hb | hb <;> rw [hb] <;> rfl
  have hempty : (ds.map spelled).isEmpty = false := by simpa using hne
  have hmarker : spelled 'E'.toUInt8 = 'E' := by decide
  rw [List.map_cons, hmarker, exponent?]
  rcases hsigned : splitSign ((s ++ ds).map spelled) with ⟨negative, rest⟩
  rw [hsigned] at hsplit
  dsimp only at hsplit ⊢
  rw [hsplit, hempty, List.all_eq_true.mpr hdigits]
  rfl

/-- A fraction or an exponent behind digits does not begin with a digit,
so the digits end there. -/
theorem isDigit_head_eq_false (hfraction : fraction ∈ Grammar.fraction)
    (hexponent : exponent ∈ optional capitalExponent) :
    ∀ c ∈ ((fraction ++ exponent).map spelled).head?, c.isDigit = false := by
  intro c hc
  rcases mem_fraction.mp hfraction with rfl | ⟨ds, -, rfl⟩
  · rcases mem_optional.mp hexponent with rfl | h
    · cases hc
    · obtain ⟨e, s, ds, he, -, -, rfl⟩ := mem_exponentWith.mp h
      obtain rfl := beq_iff_eq.mp he
      cases hc
      decide
  · cases hc
    decide

/-- The parts of a text make a number exactly if a digit stands before the
exponent. -/
theorem decimal?_isSome (hwhole : ∀ b ∈ whole, isDigit b = true)
    (hfraction : fraction ∈ Grammar.fraction)
    (hexponent : exponent ∈ optional capitalExponent) :
    (decimal? ((whole ++ (fraction ++ exponent)).map spelled)).isSome
      = (whole ++ fraction).any isDigit := by
  have hread := exponent?_isSome hexponent
  have hdigits := all_isDigit_spelled hwhole
  have hstop := isDigit_head_eq_false hfraction hexponent
  have hany : ∀ ds : List UInt8, (∀ b ∈ ds, isDigit b = true) → ds.any isDigit = !ds.isEmpty := by
    intro ds hds
    cases ds with
    | nil => rfl
    | cons d ds => simp [hds d List.mem_cons_self]
  rw [List.map_append, decimal?]
  dsimp only
  rw [Lexeme.takeWhile_append_stop hdigits hstop,
    Lexeme.dropWhile_append_stop hdigits hstop, List.any_append, hany whole hwhole]
  rcases mem_fraction.mp hfraction with rfl | ⟨ds, hds, rfl⟩
  · -- Without a point what is left is the exponent, which does not begin with one.
    have hsplit : ∀ c rest, exponent.map spelled = c :: rest → c ≠ '.' := by
      rintro c rest heq rfl
      rcases mem_optional.mp hexponent with rfl | h
      · cases heq
      · obtain ⟨e, s, ds, he, -, -, rfl⟩ := mem_exponentWith.mp h
        obtain rfl := beq_iff_eq.mp he
        exact absurd (List.cons.inj heq).1 (by decide)
    rw [List.nil_append]
    split
    · next rest heq => exact absurd rfl (hsplit _ _ heq)
    · cases whole <;> simp [hread]
  · have hpoint : spelled '.'.toUInt8 = '.' := by decide
    have hstop' := isDigit_head_eq_false (mem_optional.mpr (Or.inl rfl)) hexponent
    rw [List.nil_append] at hstop'
    rw [List.cons_append, List.map_cons, hpoint, List.map_append]
    split
    · next rest heq =>
      obtain rfl := (List.cons.inj heq).2
      rw [Lexeme.takeWhile_append_stop (all_isDigit_spelled hds) hstop',
        Lexeme.dropWhile_append_stop (all_isDigit_spelled hds) hstop', List.any_cons, hany ds hds,
        show isDigit '.'.toUInt8 = false from rfl]
      cases whole <;> cases ds <;> simp [hread]
    · next hne => exact absurd rfl (hne _)

/-- What a text with these parts begins with is neither a sign nor the
first letter of a word for infinity or NaN. -/
theorem head_spelled (hwhole : ∀ b ∈ whole, isDigit b = true)
    (hfraction : fraction ∈ Grammar.fraction)
    (hexponent : exponent ∈ optional capitalExponent) :
    ∀ c ∈ ((whole ++ (fraction ++ exponent)).map spelled).head?,
      c ≠ '+' ∧ c ≠ '-' ∧ c.toLower ≠ 'i' ∧ c.toLower ≠ 'n' := by
  intro c hc
  rw [List.head?_map] at hc
  obtain ⟨b, hb, rfl⟩ := Option.map_eq_some_iff.mp hc
  refine spelled_of_front ?_
  cases whole with
  | cons d whole =>
    cases hb
    exact Or.inl (hwhole _ List.mem_cons_self)
  | nil =>
    rcases mem_fraction.mp hfraction with rfl | ⟨ds, -, rfl⟩
    · rcases mem_optional.mp hexponent with rfl | h
      · cases hb
      · obtain ⟨e, s, ds, he, -, -, rfl⟩ := mem_exponentWith.mp h
        obtain rfl := beq_iff_eq.mp he
        cases hb
        exact Or.inr (Or.inr rfl)
    · cases hb
      exact Or.inr (Or.inl rfl)

/-- A text that does not begin like a word for infinity or NaN is read as
digits with a point and an exponent. -/
theorem magnitude?_eq_decimal? {text : List Char}
    (h : ∀ c ∈ text.head?, c.toLower ≠ 'i' ∧ c.toLower ≠ 'n') :
    magnitude? text = decimal? text := by
  have hword : ∀ c word, lowered text = c :: word → c ≠ 'i' ∧ c ≠ 'n' := by
    intro c word heq
    cases text with
    | nil => cases heq
    | cons d rest =>
      obtain ⟨rfl, -⟩ := List.cons.inj heq
      exact h d rfl
  unfold magnitude?
  rw [if_neg, if_neg]
  · intro heq
    exact (hword _ _ heq).2 rfl
  · rintro (heq | heq)
    · exact (hword _ _ heq).1 rfl
    · exact (hword _ _ heq).1 rfl

/-- The text of a number has a value as a real number exactly if a
digit stands before its exponent. -/
theorem readReal_of_parts (hwhole : ∀ b ∈ whole, isDigit b = true)
    (hfraction : fraction ∈ Grammar.fraction) (hexponent : exponent ∈ optional capitalExponent)
    {text : String} (htext : text.toList
      = (whole ++ (fraction ++ exponent)).map fun b => Char.ofNat b.toNat) :
    if (whole ++ fraction).any isDigit then ∃ value, readReal text = .ok value
    else readReal text = .error ⟨.malformed, text⟩ := by
  have hhead := head_spelled hwhole hfraction hexponent
  have hsome := decimal?_isSome hwhole hfraction hexponent
  have hspelled : (text.toList.map fun c => if c = '_' then '-' else c)
      = (whole ++ (fraction ++ exponent)).map spelled := by
    rw [htext, List.map_map]
    rfl
  have hsign := splitSign_of_head fun c hc => ⟨(hhead c hc).1, (hhead c hc).2.1⟩
  have hmagnitude := magnitude?_eq_decimal? fun c hc => (hhead c hc).2.2
  cases hvalue : decimal? ((whole ++ (fraction ++ exponent)).map spelled) with
  | some value =>
    rw [hvalue] at hsome
    rw [← hsome]
    refine ⟨value.signed false, ?_⟩
    simp only [readReal, hspelled, hsign, hmagnitude, hvalue]
  | none =>
    rw [hvalue] at hsome
    rw [← hsome]
    show readReal text = .error ⟨.malformed, text⟩
    simp only [readReal, hspelled, hsign, hmagnitude, hvalue]

end Parts

end LineLexer.Numeral
