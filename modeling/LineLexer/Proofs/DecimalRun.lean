import Mathlib.Data.Nat.Digits.Defs
import LineLexer.Proofs.SignAndRun
import LineLexer.Proofs.Taken

/-!
# `LineLexer.Proofs.DecimalRun`: numbers without hexadecimal marker

A number that ends without a hexadecimal marker has taken only digits,
a point, and an exponent with its sign on the way: a hexadecimal
letter is taken only before or behind a marker, and then the marker is
taken too. Its text can therefore be divided into the digits in front,
the point with those behind it, and the exponent.

* `Numeral.Decimal`: that division, for a number that is still being
  read. The exponent is followed by what its look ahead has found.
* `hex_of_suffixAhead`: a number before a marker ends as a hexadecimal
  one.
* `decimal_next?`, `decimal_run`: a byte more keeps the division, and
  any run that ends without a marker.
* `exponent_of_stopped`: where a run has stopped the exponent is
  complete.
-/

set_option autoImplicit false

namespace LineLexer.Numeral

open Ascii Grammar

/-! ### Hexadecimal markers -/

/-- A number before hexadecimal digits and their marker takes them all and
ends as a hexadecimal one. This is why a letter on the way decides about
the whole number. -/
theorem hex_of_suffixAhead {mode : Mode} (hmode : mode ≠ .word) (n : Numeral)
    {bytes : List UInt8} (h : suffixAhead bytes = true) :
    (n.run (mode.classes .standard) (mode == .real) bytes).1.hex = true := by
  induction bytes generalizing n with
  | nil => cases h
  | cons b rest ih =>
    have hsome : (n.next? (mode.classes .standard) (mode == .real) b rest).isSome = true :=
      next?_isSome_of_suffixAhead hmode rfl h
    obtain ⟨next, hnext⟩ := Option.isSome_iff_exists.mp hsome
    rw [run_of_next?_eq_some hnext]
    rw [suffixAhead_cons] at h
    by_cases hhex : isHexDigit b = true
    · rw [if_pos hhex] at h
      exact ih next h
    · -- The byte is the marker itself.
      rw [if_neg hhex] at h
      refine (kept_of_run _ _ next rest).1 ?_
      simp only [next?, classes_of_isSuffixMarker h, nextLetter?, h, if_true] at hnext
      split at hnext
      · cases hnext
        rfl
      · cases hnext
        rfl

/-! ### The parts of a decimal number -/

/-- The number that decimal digits write, of any size. -/
def written (digits : List UInt8) : Nat := Nat.ofDigits 10 (digits.map digitValue).reverse

/-- A digit behind others multiplies the number that they write by ten and
is added to it. -/
theorem written_concat (ds : List UInt8) (d : UInt8) :
    written (ds ++ [d]) = written ds * 10 + digitValue d := by
  simp only [written, List.map_append, List.map_cons, List.map_nil, List.reverse_append,
    List.reverse_cons, List.reverse_nil, List.nil_append, List.singleton_append, Nat.ofDigits_cons]
  omega

/-- A point, if one has been read, and the digits behind it. The flag
tells whether a point has been read. -/
inductive FractionRead : Bool → List UInt8 → Prop where
  | none : FractionRead false []
  | point {ds : List UInt8} (hds : ∀ b ∈ ds, isDigit b = true) :
      FractionRead true ('.'.toUInt8 :: ds)

/-- An exponent as far as it has been read, before the bytes `ahead`:
nothing, its marker before the rest of it, its sign before a digit, or
all of it. -/
inductive ExponentRead (ahead : List UInt8) : Bool → List UInt8 → Prop where
  | none : ExponentRead ahead false []
  | marker {e : UInt8} (he : isExponentMarker e = true) (hahead : exponentAhead ahead = true) :
      ExponentRead ahead true [e]
  | sign {e s : UInt8} (he : isExponentMarker e = true) (hs : isSignByte s = true)
      (hahead : ahead.head?.any isDigit = true) : ExponentRead ahead true [e, s]
  | digits {e : UInt8} {s ds : List UInt8} (he : isExponentMarker e = true)
      (hs : s ∈ optional Grammar.sign) (hds : ds ∈ Grammar.digits) :
      ExponentRead ahead true (e :: (s ++ ds))

/-- A number without hexadecimal marker that has been read in a mode up
to the bytes `ahead`, and the parts of its text. Its whole part is
what the digits in front write. -/
structure Decimal (mode : Mode) (n : Numeral) (ahead whole fraction exponent : List UInt8) :
    Prop where
  hex : n.hex = false
  hexPrefix : n.hexPrefix = false
  text : n.text = whole ++ (fraction ++ exponent)
  value : n.whole = written whole
  whole : ∀ b ∈ whole, isDigit b = true
  fraction : FractionRead n.point fraction
  exponent : ExponentRead ahead n.exponent exponent
  /-- Exponents are for real numbers. -/
  real : n.exponent = true → mode = .real

/-- A number of which only the sign has been read has empty parts. Every
run begins with such a number. -/
theorem decimal_signed (mode : Mode) (negative : Bool) (ahead : List UInt8) :
    Decimal mode (signed negative) ahead [] [] [] where
  hex := rfl
  hexPrefix := rfl
  text := rfl
  value := rfl
  whole _ h := nomatch h
  fraction := .none
  exponent := .none
  real h := nomatch h

/-! ### One byte -/

section Step
variable {mode : Mode} {n next : Numeral} {b : UInt8} {rest whole fraction exponent : List UInt8}

/-- Neither a digit nor a sign is the marker of an exponent. -/
theorem isExponentMarker_eq_false (h : isDigit b = true ∨ isSignByte b = true) :
    isExponentMarker b = false := by
  revert b
  apply forall_byte
  decide +kernel

/-- An exponent that ends in its marker is the marker alone. -/
theorem exponent_of_endsInMarker (h : Decimal mode n (b :: rest) whole fraction exponent)
    (hends : n.endsInMarker = true) :
    ∃ e, exponent = [e] ∧ isExponentMarker e = true ∧ exponentAhead (b :: rest) = true := by
  rw [endsInMarker, Bool.and_eq_true] at hends
  obtain ⟨hexponent, hlast⟩ := hends
  have hread := h.exponent
  rw [hexponent] at hread
  -- The last byte of the text is that of the exponent, which is not empty.
  have hkept : n.kept.head? = (whole ++ (fraction ++ exponent)).getLast? := by
    rw [← h.text, text, List.getLast?_reverse]
  rw [hkept] at hlast
  cases hread with
  | marker he hahead => exact ⟨_, rfl, he, hahead⟩
  | @sign e s he hs hahead =>
    have hmarker := isExponentMarker_eq_false (Or.inr hs)
    simp [hmarker] at hlast
  | @digits e s ds he hs hds =>
    obtain ⟨hne, hall⟩ := mem_digits.mp hds
    have hmarker := isExponentMarker_eq_false (Or.inl (hall _ (List.getLast_mem hne)))
    rw [← List.append_assoc, List.getLast?_append, ← List.cons_append, List.getLast?_append,
      List.getLast?_eq_some_getLast hne] at hlast
    simp [hmarker] at hlast

/-- A digit can be added behind a point, and the part behind the point is
then longer by it. -/
theorem FractionRead.digit (h : FractionRead true fraction) (hb : isDigit b = true) :
    FractionRead true (fraction ++ [b]) := by
  cases h with
  | point hds =>
    rw [List.cons_append]
    exact .point (List.forall_mem_append.mpr ⟨hds, List.forall_mem_singleton.mpr hb⟩)

/-- A digit can be added to an exponent, which is complete with it. -/
theorem ExponentRead.digit (h : ExponentRead (b :: rest) true exponent) (hb : isDigit b = true) :
    ExponentRead rest true (exponent ++ [b]) := by
  have hdigit : [b] ∈ Grammar.digits :=
    mem_digits.mpr ⟨List.cons_ne_nil b [], List.forall_mem_singleton.mpr hb⟩
  cases h with
  | marker he hahead => exact .digits he (mem_optional.mpr (Or.inl rfl)) hdigit
  | @sign e s he hs hahead =>
    exact .digits (s := [s]) he (mem_optional_byte.mpr (Or.inr ⟨s, hs, rfl⟩)) hdigit
  | @digits e s ds he hs hds =>
    rw [List.cons_append, List.append_assoc]
    refine .digits he hs (mem_digits.mpr ⟨by simp, ?_⟩)
    exact List.forall_mem_append.mpr ⟨(mem_digits.mp hds).2, List.forall_mem_singleton.mpr hb⟩

/-- A decimal digit keeps the number divided into its parts. The digit
belongs to the last part that has been begun. -/
theorem decimal_digit (h : Decimal mode n (b :: rest) whole fraction exponent)
    (hb : isDigit b = true) :
    ∃ whole fraction exponent, Decimal mode
      { n.keep b with whole := if n.isReal then n.whole else n.whole * 10 + digitValue b }
      rest whole fraction exponent := by
  obtain ⟨hhex, hprefix, htext, hvalue, hwhole, hfraction, hexponent, hreal⟩ := h
  have htext' := (text_keep n b).trans (congrArg (· ++ [b]) htext)
  simp only [List.append_assoc] at htext'
  cases he : n.exponent with
  | true =>
    rw [he] at hexponent
    -- The exponent has been begun, and takes the digit.
    refine ⟨whole, fraction, exponent ++ [b], hhex, hprefix, htext', ?_, hwhole, hfraction, ?_,
      hreal⟩
    · simpa [isReal, he] using hvalue
    · show ExponentRead rest n.exponent _
      rw [he]
      exact hexponent.digit hb
  | false =>
    rw [he] at hexponent
    cases hexponent
    have hnone : ExponentRead rest n.exponent [] := by
      rw [he]
      exact .none
    cases hp : n.point with
    | true =>
      rw [hp] at hfraction
      -- Behind the point the digit belongs to the fraction.
      refine ⟨whole, fraction ++ [b], [], hhex, hprefix, ?_, ?_, hwhole, ?_, hnone, hreal⟩
      · rw [List.append_nil]
        exact htext'
      · simpa [isReal, hp] using hvalue
      · show FractionRead n.point _
        rw [hp]
        exact hfraction.digit hb
    | false =>
      rw [hp] at hfraction
      cases hfraction
      -- In front of the point it counts for the whole part.
      refine ⟨whole ++ [b], [], [], hhex, hprefix, ?_, ?_, ?_, ?_, hnone, hreal⟩
      · rw [List.append_nil, List.append_nil]
        exact htext'
      · simp [isReal, hp, he, written_concat, hvalue]
      · exact List.forall_mem_append.mpr ⟨hwhole, List.forall_mem_singleton.mpr hb⟩
      · show FractionRead n.point _
        rw [hp]
        exact .none

/-- A point keeps the number divided into its parts, if there is no point
yet and no exponent. -/
theorem decimal_point (h : Decimal mode n ('.'.toUInt8 :: rest) whole fraction exponent)
    (hpoint : n.point = false) (hexponent : n.exponent = false) :
    ∃ fraction exponent, Decimal mode { n.keep '.'.toUInt8 with point := true } rest
      whole fraction exponent := by
  obtain ⟨hhex, hprefix, htext, hvalue, hwhole, hfraction, hread, hreal⟩ := h
  rw [hpoint] at hfraction
  rw [hexponent] at hread
  cases hfraction
  cases hread
  refine ⟨['.'.toUInt8], [], hhex, hprefix, ?_, hvalue, hwhole, .point nofun, ?_, hreal⟩
  · show (n.keep '.'.toUInt8).text = _
    rw [text_keep, htext, List.append_nil, List.append_nil, List.append_nil]
  · show ExponentRead rest n.exponent []
    rw [hexponent]
    exact .none

/-- The sign of an exponent keeps the number divided into its parts. A
digit has to follow it. -/
theorem decimal_sign (h : Decimal mode n (b :: rest) whole fraction exponent)
    (hb : isSignByte b = true) (hends : n.endsInMarker = true)
    (hahead : rest.head?.any isDigit = true) :
    ∃ exponent, Decimal mode (n.keep b) rest whole fraction exponent := by
  obtain ⟨e, rfl, he, -⟩ := exponent_of_endsInMarker h hends
  have hexponent : n.exponent = true := by
    rw [endsInMarker, Bool.and_eq_true] at hends
    exact hends.1
  obtain ⟨hhex, hprefix, htext, hvalue, hwhole, hfraction, -, hreal⟩ := h
  refine ⟨[e, b], hhex, hprefix, ?_, hvalue, hwhole, hfraction, ?_, hreal⟩
  · rw [text_keep, htext, List.append_assoc, List.append_assoc]
    rfl
  · show ExponentRead rest n.exponent [e, b]
    rw [hexponent]
    exact .sign he hb hahead

/-- The marker of an exponent keeps the number divided into its parts. The
rest of the exponent has to follow it, and the number has to be a real
one. -/
theorem decimal_marker (h : Decimal mode n (b :: rest) whole fraction exponent)
    (hb : isExponentMarker b = true) (hexponent : n.exponent = false)
    (hahead : exponentAhead rest = true) (hmode : mode = .real) :
    ∃ exponent, Decimal mode { n.keep b with exponent := true } rest whole fraction exponent := by
  obtain ⟨hhex, hprefix, htext, hvalue, hwhole, hfraction, hread, -⟩ := h
  rw [hexponent] at hread
  cases hread
  refine ⟨[b], hhex, hprefix, ?_, hvalue, hwhole, hfraction, .marker hb hahead, fun _ => hmode⟩
  show (n.keep b).text = _
  rw [text_keep, htext, List.append_nil, List.append_assoc]

/-- One more byte keeps the number divided into its parts, if the number
takes it and goes on to end without a hexadecimal marker. -/
theorem decimal_next? (hmode : mode ≠ .word)
    (h : Decimal mode n (b :: rest) whole fraction exponent)
    (hnext : n.next? (mode.classes .standard) (mode == .real) b rest = some next)
    (hhex : (next.run (mode.classes .standard) (mode == .real) rest).1.hex = false) :
    ∃ whole fraction exponent, Decimal mode next rest whole fraction exponent := by
  -- No marker is taken here, and none is before the number.
  have hnot : next.hex = false := by
    cases hn : next.hex with
    | false => rfl
    | true =>
      rw [(kept_of_run _ _ next rest).1 hn] at hhex
      cases hhex
  have hahead : suffixAhead rest = false := by
    cases hs : suffixAhead rest with
    | false => rfl
    | true =>
      rw [hex_of_suffixAhead hmode next hs] at hhex
      cases hhex
  unfold next? at hnext
  cases hclass : mode.classes .standard b with
  | delimiter =>
    rw [hclass] at hnext
    cases hnext
  | operator =>
    rw [hclass] at hnext
    simp only [nextSign?] at hnext
    split at hnext
    · next htaken =>
      simp only [Bool.and_eq_true] at htaken
      obtain ⟨⟨⟨-, hsign⟩, hends⟩, hdigit⟩ := htaken
      cases hnext
      exact ⟨whole, fraction, decimal_sign h (by simp [isSignByte, hsign]) hends hdigit⟩
    · cases hnext
  | digit =>
    rw [hclass] at hnext
    simp only [nextDigit?] at hnext
    split at hnext
    · next hdigit =>
      cases hnext
      exact decimal_digit h hdigit
    split at hnext
    · next hpoint =>
      obtain rfl := beq_iff_eq.mp hpoint
      split at hnext
      · cases hnext
      · next hfirst =>
        simp only [Bool.or_eq_true, not_or, Bool.not_eq_true] at hfirst
        cases hnext
        exact ⟨whole, decimal_point h hfirst.1.1 hfirst.1.2⟩
    split at hnext
    · next hsign =>
      rw [Bool.and_eq_true] at hsign
      obtain ⟨hunderscore, hends⟩ := hsign
      cases hnext
      -- The look ahead of the marker has found a digit behind the underscore.
      obtain ⟨-, -, -, hexponent⟩ := exponent_of_endsInMarker h hends
      obtain rfl := beq_iff_eq.mp hunderscore
      have hdigit : rest.head?.any isDigit = true := by
        rw [exponentAhead, show isDigit underscore = false from rfl] at hexponent
        simpa using hexponent
      exact ⟨whole, fraction, decimal_sign h rfl hends hdigit⟩
    · cases hnext
  | other =>
    rw [hclass] at hnext
    simp only [nextLetter?] at hnext
    split at hnext
    · cases hnext
      cases hnot
    split at hnext
    · cases hnext
      cases hnot
    split at hnext
    · next htaken =>
      rw [h.hexPrefix, hahead] at htaken
      simp at htaken
    split at hnext
    · next htaken =>
      simp only [Bool.and_eq_true, Bool.not_eq_true', Bool.or_eq_false_iff, beq_iff_eq] at htaken
      obtain ⟨⟨⟨hmarker, hreal⟩, hfirst, -⟩, hexponent⟩ := htaken
      cases hnext
      exact ⟨whole, fraction, decimal_marker h hmarker hfirst hexponent hreal⟩
    · cases hnext

end Step

/-! ### The whole run -/

section Run
variable {mode : Mode} {n : Numeral} {bytes whole fraction exponent : List UInt8}

/-- A run keeps the number divided into its parts, if it ends without a
hexadecimal marker. The proof is by induction on the bytes, with one byte
more as its step. -/
theorem decimal_run (hmode : mode ≠ .word) (h : Decimal mode n bytes whole fraction exponent)
    (hhex : (n.run (mode.classes .standard) (mode == .real) bytes).1.hex = false) :
    ∃ whole fraction exponent,
      Decimal mode (n.run (mode.classes .standard) (mode == .real) bytes).1
        (n.run (mode.classes .standard) (mode == .real) bytes).2.2 whole fraction exponent := by
  induction bytes generalizing n whole fraction exponent with
  | nil => exact ⟨whole, fraction, exponent, h⟩
  | cons b rest ih =>
    cases hnext : n.next? (mode.classes .standard) (mode == .real) b rest with
    | none =>
      rw [run_of_next?_eq_none hnext]
      exact ⟨whole, fraction, exponent, h⟩
    | some next =>
      rw [run_of_next?_eq_some hnext] at hhex ⊢
      obtain ⟨_, _, _, hdecimal⟩ := decimal_next? hmode h hnext hhex
      exact ih hdecimal hhex

/-- Where a run has stopped, no part of an exponent is missing: the look
ahead has seen a digit behind the marker, and the run goes on to it. -/
theorem exponent_of_stopped (hmode : mode ≠ .word)
    (h : Decimal mode n bytes whole fraction exponent)
    (hstop : (n.run (mode.classes .standard) (mode == .real) bytes).2.1 = []) :
    exponent ∈ optional (exponentWith isExponentMarker) ∧
      (n.exponent = true ↔ exponent ≠ []) := by
  -- What the look ahead of the exponent has found would have been taken.
  have hleft : ∀ b rest, bytes = b :: rest →
      (n.next? (mode.classes .standard) (mode == .real) b rest).isSome = true → False := by
    rintro b rest rfl hsome
    obtain ⟨next, hnext⟩ := Option.isSome_iff_exists.mp hsome
    rw [run_of_next?_eq_some hnext] at hstop
    cases hstop
  cases he : n.exponent with
  | false =>
    have hread := h.exponent
    rw [he] at hread
    cases hread
    exact ⟨mem_optional.mpr (Or.inl rfl), by simp⟩
  | true =>
    obtain rfl := h.real he
    have hread := h.exponent
    rw [he] at hread
    cases hread with
    | @marker e hmarker hahead =>
      -- The number ends in the marker, before a digit or before a sign and a digit.
      have hlast : n.kept.head? = some e := by
        rw [← List.getLast?_reverse, ← text, h.text]
        simp
      have hends : n.endsInMarker = true := by simp [endsInMarker, he, hlast, hmarker]
      cases bytes with
      | nil => cases hahead
      | cons b rest =>
        rw [exponentAhead, Bool.or_eq_true, Bool.and_eq_true, Bool.or_eq_true, beq_iff_eq]
          at hahead
        refine absurd ?_ (hleft b rest rfl)
        rcases hahead with hdigit | ⟨hsign, hdigit⟩
        · exact next?_isSome_of_isDigit hmode rfl hdigit
        · exact next?_isSome_of_sign rfl rfl hends hsign hdigit
    | sign hmarker hs hahead =>
      cases bytes with
      | nil => cases hahead
      | cons b rest =>
        have hdigit : isDigit b = true := hahead
        exact absurd (next?_isSome_of_isDigit hmode rfl hdigit) (hleft b rest rfl)
    | @digits e s ds hmarker hs hds =>
      have hmem : e :: (s ++ ds) ∈ exponentWith isExponentMarker :=
        mem_exponentWith.mpr ⟨e, s, ds, hmarker, hs, hds, rfl⟩
      exact ⟨mem_optional.mpr (Or.inr hmem), by simp⟩

end Run

end LineLexer.Numeral
