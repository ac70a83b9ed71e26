import LineLexer.Proofs.Grammar
import LineLexer.Proofs.LookAhead

/-!
# `LineLexer.Proofs.Taken`: the bytes that a number takes

Whatever the class table says, a byte can be only a few things to the
number that takes it: a digit, the point, a part of the exponent, or a
marker. What each of these does to the number is said once here, and
with it what a run of bytes does: which bytes it takes, the text that
it leaves, and what it keeps as it was.

* `Took`: all that a byte can be to a number that takes it.
* `took_of_next?`: a number takes no byte in any other way.
* `run_invariant`: what one byte keeps, a run keeps.
* `part_of_run`, `ascii_of_run`: what bytes a run takes.
* `text_of_run`: the text that a run leaves, and when it makes a
  hexadecimal number.
-/

set_option autoImplicit false

namespace LineLexer.Numeral

open Ascii Grammar

/-! ### One byte -/

/-- What the byte `b` before the bytes `rest` is to a number that takes
it, and the number with it. All but the suffix marker are kept in the
text. -/
inductive Took (reals : Bool) (n : Numeral) (b : UInt8) (rest : List UInt8) : Numeral → Prop where
  | digit (hb : isDigit b = true) :
      Took reals n b rest { n.keep b with
        whole := if n.isReal then n.whole else n.whole * 10 + digitValue b }
  | point (hb : b = '.'.toUInt8) (hfree : n.point = false ∧ n.exponent = false ∧ n.hex = false) :
      Took reals n b rest { n.keep b with point := true }
  | underscore (hb : b = underscore) (hends : n.endsInMarker = true) :
      Took reals n b rest (n.keep b)
  | sign (hb : isSign b = true) (hends : n.endsInMarker = true)
      (hdigit : rest.head?.any isDigit = true) : Took reals n b rest (n.keep b)
  | prefixMarker (hb : isPrefixMarker b = true) :
      Took reals n b rest { n.keep b with hexPrefix := true, hex := true }
  | suffixMarker (hb : isSuffixMarker b = true) : Took reals n b rest { n with hex := true }
  | hexDigit (hb : isHexDigit b = true) (hmarked : n.hexPrefix = true ∨ suffixAhead rest = true) :
      Took reals n b rest (n.keep b)
  | exponent (hb : isExponentMarker b = true) (hreals : reals = true)
      (hfree : n.exponent = false ∧ n.hex = false) (hahead : exponentAhead rest = true) :
      Took reals n b rest { n.keep b with exponent := true }

section Took
variable {classes : ClassTable} {reals : Bool} {n next : Numeral} {b : UInt8}
  {rest : List UInt8}

/-- A byte that a number takes for its class digit is a digit, a point or
an underscore to it. -/
theorem took_of_nextDigit? (h : n.nextDigit? b = some next) : Took reals n b rest next := by
  unfold nextDigit? at h
  split at h
  · next hdigit =>
    cases h
    exact .digit hdigit
  split at h
  · next hpoint =>
    split at h
    · cases h
    · next hfree =>
      cases h
      exact .point (beq_iff_eq.mp hpoint) (by simpa [and_assoc] using hfree)
  split at h
  · next hsign =>
    cases h
    rw [Bool.and_eq_true, beq_iff_eq] at hsign
    exact .underscore hsign.1 hsign.2
  · cases h

/-- A byte that a number takes for its class operator is the sign of its
exponent. -/
theorem took_of_nextSign? (h : n.nextSign? reals b rest = some next) :
    Took reals n b rest next := by
  unfold nextSign? at h
  split at h
  · next htaken =>
    cases h
    simp only [Bool.and_eq_true] at htaken
    exact .sign htaken.1.1.2 htaken.1.2 htaken.2
  · cases h

/-- A byte that a number takes for its class other is a marker or a
hexadecimal digit to it. -/
theorem took_of_nextLetter? (h : n.nextLetter? reals b rest = some next) :
    Took reals n b rest next := by
  -- The number asks for these four, one after the other.
  unfold nextLetter? at h
  split at h
  · next hmarker =>
    cases h
    exact .prefixMarker hmarker
  split at h
  · next hmarker =>
    cases h
    exact .suffixMarker hmarker
  split at h
  · next hhex =>
    cases h
    rw [Bool.and_eq_true, Bool.or_eq_true] at hhex
    exact .hexDigit hhex.1 hhex.2
  split at h
  · next hexponent =>
    cases h
    simp only [Bool.and_eq_true, Bool.not_eq_true', Bool.or_eq_false_iff] at hexponent
    exact .exponent hexponent.1.1.1 hexponent.1.1.2 hexponent.1.2 hexponent.2
  · cases h

/-- Whatever the class table says, a byte that a number takes is one of
the things that `Took` lists. -/
theorem took_of_next? (h : n.next? classes reals b rest = some next) :
    Took reals n b rest next := by
  unfold next? at h
  cases hb : classes b with
  | delimiter => rw [hb] at h; cases h
  | operator => rw [hb] at h; exact took_of_nextSign? h
  | digit => rw [hb] at h; exact took_of_nextDigit? h
  | other => rw [hb] at h; exact took_of_nextLetter? h

/-- No byte changes the sign of the number. -/
theorem negative_of_took (h : Took reals n b rest next) : next.negative = n.negative := by
  cases h <;> rfl

end Took

/-! ### What the byte is -/

section Parts
variable {reals : Bool} {n next : Numeral} {b : UInt8} {rest : List UInt8}

/-- No digit, no point and no sign is a marker of hexadecimal
numbers. -/
theorem isHexMarkerByte_eq_false
    (h : isHexDigit b = true ∨ b = '.'.toUInt8 ∨ isSignByte b = true) :
    isHexMarkerByte b = false := by
  revert b
  apply forall_byte
  decide +kernel

/-- The marker of an exponent is a hexadecimal digit. -/
theorem isHexDigit_of_isExponentMarker (h : isExponentMarker b = true) : isHexDigit b = true := by
  revert b
  apply forall_byte
  decide +kernel

/-- Every byte that a number takes is a hexadecimal digit, a marker, the
point or a sign. -/
theorem part_of_took (h : Took reals n b rest next) :
    isHexMarkerByte b = true ∨ isHexDigit b = true ∨ b = '.'.toUInt8 ∨ isSignByte b = true := by
  cases h with
  | digit hb => exact Or.inr (Or.inl (isHexDigit_of_isDigit hb))
  | point hb hfree => exact Or.inr (Or.inr (Or.inl hb))
  | underscore hb hends => exact Or.inr (Or.inr (Or.inr (by simp [isSignByte, hb])))
  | sign hb hends hdigit => exact Or.inr (Or.inr (Or.inr (by simp [isSignByte, hb])))
  | prefixMarker hb => exact Or.inl (by simp [isHexMarkerByte, hb])
  | suffixMarker hb => exact Or.inl (by simp [isHexMarkerByte, hb])
  | hexDigit hb hmarked => exact Or.inr (Or.inl hb)
  | exponent hb hreals hfree hahead => exact Or.inr (Or.inl (isHexDigit_of_isExponentMarker hb))

/-- Every byte that a number takes is ASCII. -/
theorem ascii_of_took (h : Took reals n b rest next) : b < 0x80 := by
  have hall : ∀ b : UInt8, isHexMarkerByte b = true ∨ isHexDigit b = true ∨ b = '.'.toUInt8 ∨
      isSignByte b = true → b < 0x80 := forall_byte (by decide +kernel)
  exact hall b (part_of_took h)

/-- A sign is taken only behind the marker of an exponent. -/
theorem endsInMarker_of_sign (h : Took reals n b rest next) (hsign : isSign b = true) :
    n.endsInMarker = true := by
  have hsigns : ∀ b : UInt8, isSign b = true → isHexDigit b = false ∧ isHexMarkerByte b = false ∧
      b ≠ '.'.toUInt8 := forall_byte (by decide +kernel)
  obtain ⟨hhex, hmarker, hpoint⟩ := hsigns b hsign
  cases h with
  | digit hb => simp [isHexDigit_of_isDigit hb] at hhex
  | point hb hfree => exact absurd hb hpoint
  | underscore hb hends => exact hends
  | sign hb hends hdigit => exact hends
  | prefixMarker hb => simp [isHexMarkerByte, hb] at hmarker
  | suffixMarker hb => simp [isHexMarkerByte, hb] at hmarker
  | hexDigit hb hmarked => simp [hb] at hhex
  | exponent hb hreals hfree hahead => simp [isHexDigit_of_isExponentMarker hb] at hhex

end Parts

/-! ### What it leaves in the text -/

/-- The bytes without the markers in front of hexadecimal digits. -/
def unprefixed (bytes : List UInt8) : List UInt8 := bytes.filter fun b => !isPrefixMarker b

/-- The bytes without the markers behind hexadecimal digits. -/
def unsuffixed (bytes : List UInt8) : List UInt8 := bytes.filter fun b => !isSuffixMarker b

/-- The bytes without the markers of hexadecimal numbers. -/
def unmarked (bytes : List UInt8) : List UInt8 := bytes.filter fun b => !isHexMarkerByte b

/-- Taking out the markers in front of hexadecimal digits and those behind
them takes out all markers. -/
theorem unprefixed_unsuffixed (bytes : List UInt8) :
    unprefixed (unsuffixed bytes) = unmarked bytes := by
  simp only [unprefixed, unsuffixed, unmarked, List.filter_filter, isHexMarkerByte, Bool.not_or]

section Text
variable {reals : Bool} {n next : Numeral} {b : UInt8} {rest : List UInt8}

/-- A number that has only its sign has an empty text. -/
@[simp] theorem text_signed (negative : Bool) : (signed negative).text = [] := rfl

/-- A number that has only its sign is not hexadecimal. -/
@[simp] theorem hex_signed (negative : Bool) : (signed negative).hex = false := rfl

/-- A byte that is kept stands behind the text. -/
theorem text_keep (n : Numeral) (b : UInt8) : (n.keep b).text = n.text ++ [b] := by
  rw [text, keep, List.reverse_cons]
  rfl

/-- The byte that a number takes is added to the text unless it is a
suffix marker, and makes the number hexadecimal if it is a marker. -/
theorem text_of_took (h : Took reals n b rest next) :
    next.text = n.text ++ unsuffixed [b] ∧ next.hex = (n.hex || isHexMarkerByte b) := by
  have hplain : isHexDigit b = true ∨ b = '.'.toUInt8 ∨ isSignByte b = true →
      (n.keep b).text = n.text ++ unsuffixed [b] ∧ n.hex = (n.hex || isHexMarkerByte b) := by
    intro hb
    have hmarker := isHexMarkerByte_eq_false hb
    have hsuffix : isSuffixMarker b = false := (Bool.or_eq_false_iff.mp hmarker).2
    rw [text_keep]
    simp [unsuffixed, hsuffix, hmarker]
  cases h with
  | digit hb => exact hplain (Or.inl (isHexDigit_of_isDigit hb))
  | point hb hfree => exact hplain (Or.inr (Or.inl hb))
  | underscore hb hends => exact hplain (Or.inr (Or.inr (by simp [isSignByte, hb])))
  | sign hb hends hdigit => exact hplain (Or.inr (Or.inr (by simp [isSignByte, hb])))
  | prefixMarker hb =>
    simp [text, keep, unsuffixed, isHexMarkerByte, hb, not_isHexDigit_of_isMarker.2 hb]
  | suffixMarker hb => simp [text, unsuffixed, isHexMarkerByte, hb]
  | hexDigit hb hmarked => exact hplain (Or.inl hb)
  | exponent hb hreals hfree hahead => exact hplain (Or.inl (isHexDigit_of_isExponentMarker hb))

end Text

/-! ### A run -/

section Run
variable (classes : ClassTable) (reals : Bool)

/-- A property that every byte taken keeps of a number holds behind a run
if it holds before it. -/
theorem run_invariant {P : Numeral → Prop}
    (hstep : ∀ {n next : Numeral} {b : UInt8} {rest : List UInt8},
      P n → Took reals n b rest next → P next)
    {n : Numeral} (hn : P n) (bytes : List UInt8) : P (n.run classes reals bytes).1 := by
  induction bytes generalizing n with
  | nil => exact hn
  | cons b rest ih =>
    cases hnext : n.next? classes reals b rest with
    | none =>
      rw [run_of_next?_eq_none hnext]
      exact hn
    | some next =>
      rw [run_of_next?_eq_some hnext]
      exact ih (hstep hn (took_of_next? hnext))

variable (n : Numeral) (bytes : List UInt8)

/-- Every byte that a run takes is a hexadecimal digit, a marker, the
point or a sign. -/
theorem part_of_run : ∀ b ∈ (n.run classes reals bytes).2.1,
    isHexMarkerByte b = true ∨ isHexDigit b = true ∨ b = '.'.toUInt8 ∨ isSignByte b = true :=
  forall_taken (fun h => part_of_took (took_of_next? h)) n bytes

/-- Every byte that a run takes is ASCII, whatever the class table. The
bytes of a number can therefore be cut and folded one by one. -/
theorem ascii_of_run : ∀ b ∈ (n.run classes reals bytes).2.1, b < 0x80 :=
  forall_taken (fun h => ascii_of_took (took_of_next? h)) n bytes

/-- The text behind a run has the bytes that were taken added to it,
suffix markers apart. The number is hexadecimal if it was before or if one
of the bytes is a marker. -/
theorem text_of_run :
    let run := n.run classes reals bytes
    run.1.text = n.text ++ unsuffixed run.2.1 ∧
      run.1.hex = (n.hex || run.2.1.any isHexMarkerByte) := by
  induction bytes generalizing n with
  | nil => simp [run, unsuffixed]
  | cons b rest ih =>
    cases h : n.next? classes reals b rest with
    | none =>
      rw [run_of_next?_eq_none h]
      simp [unsuffixed]
    | some next =>
      obtain ⟨htext, hhex⟩ := text_of_took (took_of_next? h)
      obtain ⟨htext', hhex'⟩ := ih next
      rw [run_of_next?_eq_some h]
      refine ⟨?_, ?_⟩
      · rw [htext', htext, List.append_assoc, unsuffixed, unsuffixed, ← List.filter_append]
        rfl
      · rw [hhex', hhex, List.any_cons, Bool.or_assoc]

/-- A run leaves the sign of a number, and a number that is hexadecimal
before it is so behind it. If the number is not hexadecimal in the end,
all bytes that were taken are in the text. -/
theorem kept_of_run :
    let run := n.run classes reals bytes
    (n.hex = true → run.1.hex = true) ∧ run.1.negative = n.negative ∧
      (run.1.hex = false → run.1.text = n.text ++ run.2.1) := by
  obtain ⟨htext, hhex⟩ := text_of_run classes reals n bytes
  refine ⟨fun hn => by rw [hhex, hn, Bool.true_or], ?_, ?_⟩
  · exact run_invariant (P := fun later => later.negative = n.negative) classes reals
      (fun hlater h => (negative_of_took h).trans hlater) rfl bytes
  · intro hdecimal
    rw [hhex, Bool.or_eq_false_iff, List.any_eq_false] at hdecimal
    rw [htext, unsuffixed, List.filter_eq_self.mpr]
    intro b hb
    have hmarker : isHexMarkerByte b = false := by simpa using hdecimal.2 b hb
    rw [(Bool.or_eq_false_iff.mp hmarker).2]
    rfl

end Run

end LineLexer.Numeral
