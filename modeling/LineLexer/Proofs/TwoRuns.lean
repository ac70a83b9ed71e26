import LineLexer.Proofs.LookAhead

/-!
# `LineLexer.Proofs.TwoRuns`: the same bytes taken twice

A numeral may take the same bytes in two places, once before bytes
that show more to the look ahead and once with nothing behind them. It
is not always the same numeral then: an `e` with a hexadecimal marker
in sight is a digit, and without one it can be the marker of an
exponent.

* `Parallel`: how the two numerals can differ on the way. After such
  an `e` the two have nothing to choose any more.
* `parallel_run`: two runs over the same bytes stay so.
* `Parallel.value?`, `Parallel.realValue?`: in the end, if both
  numerals are real ones or neither is, they have the same value or
  the same fault.
-/

set_option autoImplicit false

namespace LineLexer.Numeral

open Ascii

/-- Two numerals that have been read from the same bytes, with `ahead`
still to come for `p`, and `taken` for `s`. -/
structure Parallel (p s : Numeral) (ahead taken : List UInt8) : Prop where
  negative : p.negative = s.negative
  kept : p.kept = s.kept
  point : p.point = s.point
  hexPrefix : p.hexPrefix = s.hexPrefix
  hex : p.hex = s.hex
  /-- Either the two are the same in their exponents and whole digits, or
  `p` has read an `e` as a digit and `s` as the marker of an exponent. The
  hexadecimal marker that `p` expects is then not among the bytes still to
  come for `s`. -/
  apart : (p.exponent = s.exponent ∧ p.whole = s.whole) ∨
    (p.exponent = false ∧ s.exponent = true ∧ (p.point = true → p.whole = s.whole) ∧
      suffixAhead ahead = true ∧ suffixAhead taken = false)

section Step
variable {reals : Bool} {p s p' s' : Numeral} {b : UInt8} {ahead taken : List UInt8}

/-- A numeral is parallel to itself. -/
theorem Parallel.refl (n : Numeral) (ahead taken : List UInt8) : Parallel n n ahead taken :=
  ⟨rfl, rfl, rfl, rfl, rfl, Or.inl ⟨rfl, rfl⟩⟩

/-- Two numerals that have not parted stay together when both keep a
byte. -/
theorem Parallel.keep (h : Parallel p s (b :: ahead) (b :: taken))
    (hsame : p.exponent = s.exponent ∧ p.whole = s.whole) :
    Parallel (p.keep b) (s.keep b) ahead taken :=
  ⟨h.negative, congrArg (b :: ·) h.kept, h.point, h.hexPrefix, h.hex, Or.inl hsame⟩

/-- Where the first of two numerals ends in an exponent marker they
have not parted. -/
theorem Parallel.same_of_endsInMarker (h : Parallel p s ahead taken)
    (hp : p.endsInMarker = true) : p.exponent = s.exponent ∧ p.whole = s.whole := by
  rcases h.apart with hsame | ⟨hexponent, -⟩
  · exact hsame
  · simp [endsInMarker, hexponent] at hp

/-- Where the second of two numerals has no exponent they have not
parted. -/
theorem Parallel.same_of_exponent (h : Parallel p s ahead taken) (hs : s.exponent = false) :
    p.exponent = s.exponent ∧ p.whole = s.whole := by
  rcases h.apart with hsame | ⟨-, hexponent, -⟩
  · exact hsame
  · rw [hs] at hexponent
    cases hexponent

/-- Where the first of two numerals sees no marker of digits ahead, or
the second one sees one, they have not parted. -/
theorem Parallel.same_of_suffixAhead (h : Parallel p s ahead taken)
    (hshown : suffixAhead ahead = false ∨ suffixAhead taken = true) :
    p.exponent = s.exponent ∧ p.whole = s.whole := by
  rcases h.apart with hsame | ⟨-, -, -, hahead, htaken⟩
  · exact hsame
  · rw [hahead, htaken] at hshown
    simp at hshown

/-- A byte of class digit keeps two numerals parallel. -/
theorem Parallel.nextDigit? (h : Parallel p s (b :: ahead) (b :: taken))
    (hp : p.nextDigit? b = some p') (hs : s.nextDigit? b = some s') :
    Parallel p' s' ahead taken := by
  unfold Numeral.nextDigit? at hp hs
  by_cases hdigit : isDigit b = true
  · rw [if_pos hdigit] at hp hs
    cases hp
    cases hs
    refine ⟨h.negative, congrArg (b :: ·) h.kept, h.point, h.hexPrefix, h.hex, ?_⟩
    rcases h.apart with ⟨hexponent, hwhole⟩ | ⟨hpexp, hsexp, hwhole, hahead, htaken⟩
    · exact Or.inl ⟨hexponent, by simp [isReal, h.point, hexponent, hwhole]⟩
    · rw [suffixAhead_cons, if_pos (isHexDigit_of_isDigit hdigit)] at hahead htaken
      refine Or.inr ⟨hpexp, hsexp, fun hpoint => ?_, hahead, htaken⟩
      -- Neither whole part grows behind a point.
      have hpoint' : p.point = true := hpoint
      simp [isReal, hpoint', hsexp, hwhole hpoint']
  · rw [if_neg hdigit] at hp hs
    by_cases hdot : (b == '.'.toUInt8) = true
    · rw [if_pos hdot] at hp hs
      split at hp
      · cases hp
      split at hs
      · cases hs
      next hfree =>
      cases hp
      cases hs
      simp only [Bool.or_eq_true, not_or, Bool.not_eq_true] at hfree
      have hsame := h.same_of_exponent hfree.1.2
      exact ⟨h.negative, congrArg (b :: ·) h.kept, rfl, h.hexPrefix, h.hex, Or.inl hsame⟩
    · rw [if_neg hdot] at hp hs
      split at hp
      · next hends =>
        split at hs
        · cases hp
          cases hs
          rw [Bool.and_eq_true] at hends
          exact h.keep (h.same_of_endsInMarker hends.2)
        · cases hs
      · cases hp

/-- A sign in an exponent keeps two numerals parallel. -/
theorem Parallel.nextSign? (h : Parallel p s (b :: ahead) (b :: taken))
    (hp : p.nextSign? reals b ahead = some p') (hs : s.nextSign? reals b taken = some s') :
    Parallel p' s' ahead taken := by
  unfold Numeral.nextSign? at hp hs
  split at hp
  · next hends =>
    split at hs
    · cases hp
      cases hs
      simp only [Bool.and_eq_true] at hends
      exact h.keep (h.same_of_endsInMarker hends.1.2)
    · cases hs
  · cases hp

/-- A letter keeps two numerals parallel. -/
theorem Parallel.nextLetter? (h : Parallel p s (b :: ahead) (b :: taken))
    (hdim : Dimmer taken ahead)
    (hp : p.nextLetter? reals b ahead = some p') (hs : s.nextLetter? reals b taken = some s') :
    Parallel p' s' ahead taken := by
  unfold Numeral.nextLetter? at hp hs
  by_cases hprefix : isPrefixMarker b = true
  · rw [if_pos hprefix] at hp hs
    cases hp
    cases hs
    obtain ⟨hhex, hmarker⟩ := not_isHexDigit_of_isMarker.2 hprefix
    have hnone : suffixAhead (b :: ahead) = false := by
      rw [suffixAhead_cons, hhex, hmarker]
      rfl
    exact ⟨h.negative, congrArg (b :: ·) h.kept, h.point, rfl, rfl,
      Or.inl (h.same_of_suffixAhead (Or.inl hnone))⟩
  rw [if_neg hprefix] at hp hs
  by_cases hmarker : isSuffixMarker b = true
  · rw [if_pos hmarker] at hp hs
    cases hp
    cases hs
    have hsome : suffixAhead (b :: taken) = true := by
      rw [suffixAhead_cons, not_isHexDigit_of_isMarker.1 hmarker, hmarker]
      rfl
    exact ⟨h.negative, h.kept, h.point, h.hexPrefix, rfl,
      Or.inl (h.same_of_suffixAhead (Or.inr hsome))⟩
  rw [if_neg hmarker] at hp hs
  by_cases hphex : (isHexDigit b && (p.hexPrefix || suffixAhead ahead)) = true
  · rw [if_pos hphex] at hp
    cases hp
    rw [Bool.and_eq_true] at hphex
    by_cases hshex : (isHexDigit b && (s.hexPrefix || suffixAhead taken)) = true
    · -- The letter is a digit to both.
      rw [if_pos hshex] at hs
      cases hs
      refine ⟨h.negative, congrArg (b :: ·) h.kept, h.point, h.hexPrefix, h.hex, ?_⟩
      have hapart := h.apart
      rwa [suffixAhead_cons, suffixAhead_cons, if_pos hphex.1, if_pos hphex.1] at hapart
    · -- It is a digit to the first one only, and there the two part.
      rw [if_neg hshex] at hs
      split at hs
      · next hexponent =>
        cases hs
        simp only [Bool.and_eq_true, Bool.or_eq_true, Bool.not_eq_true', Bool.or_eq_false_iff,
          hphex.1, true_and, not_or, Bool.not_eq_true] at hexponent hshex hphex
        obtain ⟨hexponent', hwhole⟩ := h.same_of_exponent hexponent.1.2.1
        refine ⟨h.negative, congrArg (b :: ·) h.kept, h.point, h.hexPrefix, h.hex, ?_⟩
        have hahead : suffixAhead ahead = true := by
          rcases hphex with hpre | hahead
          · rw [h.hexPrefix, hshex.1] at hpre
            cases hpre
          · exact hahead
        exact Or.inr ⟨hexponent'.trans hexponent.1.2.1, rfl, fun _ => hwhole, hahead, hshex.2⟩
      · cases hs
  · rw [if_neg hphex] at hp
    have hshex : ¬ (isHexDigit b && (s.hexPrefix || suffixAhead taken)) = true := by
      intro hshex
      simp only [Bool.and_eq_true, Bool.or_eq_true, not_and, not_or] at hphex hshex
      rcases hshex.2 with hpre | htaken
      · exact (hphex hshex.1).1 (h.hexPrefix.trans hpre)
      · exact (hphex hshex.1).2 (hdim.suffix htaken)
    rw [if_neg hshex] at hs
    split at hp
    · split at hs
      · next hexponent =>
        cases hp
        cases hs
        simp only [Bool.and_eq_true, Bool.not_eq_true', Bool.or_eq_false_iff] at hexponent
        have hsame := h.same_of_exponent hexponent.1.2.1
        exact ⟨h.negative, congrArg (b :: ·) h.kept, h.point, h.hexPrefix, h.hex,
          Or.inl ⟨rfl, hsame.2⟩⟩
      · cases hs
    · cases hp

/-- A byte that both numerals take keeps them parallel. -/
theorem Parallel.next? {classes others : ClassTable} (h : Parallel p s (b :: ahead) (b :: taken))
    (hdim : Dimmer taken ahead) (hclass : others b = classes b)
    (hp : p.next? classes reals b ahead = some p') (hs : s.next? others reals b taken = some s') :
    Parallel p' s' ahead taken := by
  unfold Numeral.next? at hp hs
  rw [hclass] at hs
  cases hb : classes b with
  | delimiter => rw [hb] at hp; cases hp
  | operator => rw [hb] at hp hs; exact h.nextSign? hp hs
  | digit => rw [hb] at hp hs; exact h.nextDigit? hp hs
  | other => rw [hb] at hp hs; exact h.nextLetter? hdim hp hs

end Step

section Run
variable {classes others : ClassTable} {reals : Bool} {p s : Numeral} {taken left : List UInt8}

/-- A run that takes nothing leaves the numeral as it is. -/
theorem run_eq_self {n : Numeral} {bytes : List UInt8}
    (h : (n.run classes reals bytes).2.1 = []) : (n.run classes reals bytes).1 = n := by
  cases bytes with
  | nil => rfl
  | cons b rest =>
    cases hnext : n.next? classes reals b rest with
    | none => rw [run_of_next?_eq_none hnext]
    | some next =>
      rw [run_of_next?_eq_some hnext] at h
      cases h

/-- Two runs over the same bytes keep numerals parallel, if the two class
tables agree on these bytes and both runs take them all. -/
theorem parallel_run (h : Parallel p s (taken ++ left) taken)
    (hagree : ∀ b ∈ taken, others b = classes b)
    (hp : (p.run classes reals (taken ++ left)).2.1 = taken)
    (hs : (s.run others reals taken).2.1 = taken) :
    Parallel (p.run classes reals (taken ++ left)).1 (s.run others reals taken).1 left [] := by
  induction taken generalizing p s with
  | nil =>
    rw [List.nil_append] at h hp ⊢
    rw [run_eq_self hp]
    exact h
  | cons b taken ih =>
    rw [List.cons_append] at h hp ⊢
    cases hpb : p.next? classes reals b (taken ++ left) with
    | none =>
      rw [run_of_next?_eq_none hpb] at hp
      cases hp
    | some p' =>
      cases hsb : s.next? others reals b taken with
      | none =>
        rw [run_of_next?_eq_none hsb] at hs
        cases hs
      | some s' =>
        rw [run_of_next?_eq_some hpb] at hp ⊢
        rw [run_of_next?_eq_some hsb] at hs ⊢
        -- What is ahead of the second run is a front of what is ahead of the first.
        have hnext := h.next? (.append_right taken left) (hagree b List.mem_cons_self) hpb hsb
        exact ih hnext (fun c hc => hagree c (List.mem_cons_of_mem _ hc)) (List.cons.inj hp).2
          (List.cons.inj hs).2

end Run

section Value
variable {p s : Numeral} {left : List UInt8}

/-- Two numerals that are both real or both whole have the same value
or the same fault. -/
theorem Parallel.value? (h : Parallel p s left []) (hreal : p.isReal = s.isReal)
    (text : String) : p.value? text = s.value? text := by
  have hwhole : p.whole = s.whole := by
    rcases h.apart with ⟨-, hwhole⟩ | ⟨hpexp, hsexp, hwhole, -⟩
    · exact hwhole
    · apply hwhole
      simpa [isReal, hpexp, hsexp] using hreal
  rw [Numeral.value?, Numeral.value?, h.hex, h.negative, hwhole]

/-- Two parallel numerals have the same value as real numbers, or the same
fault. That value is read from their common text. -/
theorem Parallel.realValue? (h : Parallel p s left []) (text : String) (intValue : Int) :
    p.realValue? text intValue = s.realValue? text intValue := by
  rw [Numeral.realValue?, Numeral.realValue?, h.hex, h.negative]

end Value

end LineLexer.Numeral
