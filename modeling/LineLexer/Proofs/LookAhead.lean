import LineLexer.Proofs.Classes

/-!
# `LineLexer.Proofs.LookAhead`: how far a number looks

A numeral takes a letter or a sign only after a look at the bytes
behind it, at any number of them where a hexadecimal marker is sought.
The theorems say which bytes that look depends on:

* `Dimmer`: some bytes show no more to the look ahead than others do.
* `next?_eq_some_of_dimmer`, `next?_isSome_of_dimmer`: what follows
  from this for the next byte of a numeral.
* `suffixAhead_taken`, `exponentAhead_taken`: what the look ahead finds
  is taken.
* `run_taken`: the bytes that a numeral takes are all that it depends
  on. What follows them can be exchanged for anything that shows no
  more to the look ahead, unless the numeral was stopped by a pinned
  byte.

The look is a test on raw bytes, which asks no class table. A byte
that is pinned as a delimiter stops a numeral, and the look ahead goes
past it all the same. `StopsAtPin` is the one case in which a numeral
depends on bytes that it does not take.
-/

set_option autoImplicit false

namespace LineLexer.Numeral

open Ascii

/-! ### What bytes show to the look ahead -/

/-- Whatever the look ahead finds in `dim` it also finds in
`bright`. -/
structure Dimmer (dim bright : List UInt8) : Prop where
  suffix : suffixAhead dim = true → suffixAhead bright = true
  exponent : exponentAhead dim = true → exponentAhead bright = true
  digit : dim.head?.any isDigit = true → bright.head?.any isDigit = true

/-- A hexadecimal digit in front shows what stands behind it. -/
theorem suffixAhead_cons (b : UInt8) (rest : List UInt8) :
    suffixAhead (b :: rest) = if isHexDigit b then suffixAhead rest else isSuffixMarker b := by
  by_cases h : isHexDigit b = true
  · simp [suffixAhead, h]
  · simp [suffixAhead, h]

namespace Dimmer
variable {dim bright : List UInt8}

/-- No bytes at all show nothing to the look ahead, so they are dimmer
than any others. -/
theorem nil (bright : List UInt8) : Dimmer [] bright where
  suffix h := by cases h
  exponent h := by cases h
  digit h := by cases h

/-- Bytes that begin with one that says nothing to the look ahead are
dimmer than any others. -/
theorem silent {b : UInt8} (h : Silent b) (rest bright : List UInt8) :
    Dimmer (b :: rest) bright where
  suffix hsuffix := by
    rw [suffixAhead_cons, h.hexDigit, h.suffixMarker] at hsuffix
    cases hsuffix
  exponent hexponent := by
    simp [exponentAhead, h.digit, h.sign, h.underscore] at hexponent
  digit hdigit := by
    simp [h.digit] at hdigit

/-- The same byte in front of both keeps one row of bytes dimmer than the
other. -/
theorem cons (h : Dimmer dim bright) (b : UInt8) : Dimmer (b :: dim) (b :: bright) where
  suffix hsuffix := by
    rw [suffixAhead_cons] at hsuffix ⊢
    by_cases hb : isHexDigit b = true
    · rw [if_pos hb] at hsuffix ⊢
      exact h.suffix hsuffix
    · rw [if_neg hb] at hsuffix ⊢
      exact hsuffix
  exponent hexponent := by
    simp only [exponentAhead, Bool.or_eq_true, Bool.and_eq_true] at hexponent ⊢
    rcases hexponent with hdigit | ⟨hsign, hdigit⟩
    · exact Or.inl hdigit
    · exact Or.inr ⟨hsign, h.digit hdigit⟩
  digit hdigit := hdigit

/-- The same bytes in front of both keep one row of bytes dimmer than the
other. -/
theorem append (h : Dimmer dim bright) (taken : List UInt8) :
    Dimmer (taken ++ dim) (taken ++ bright) := by
  induction taken with
  | nil => exact h
  | cons b taken ih => exact ih.cons b

/-- Some bytes are dimmer than the same bytes with others behind them. -/
theorem append_right (bytes left : List UInt8) : Dimmer bytes (bytes ++ left) := by
  have h := (nil left).append bytes
  rwa [List.append_nil] at h

/-- Bytes with one behind them that says nothing to the look ahead are
dimmer than these bytes alone, whatever comes after. The byte hides it. -/
theorem append_silent {b : UInt8} (hb : Silent b) (bytes rest : List UInt8) :
    Dimmer (bytes ++ b :: rest) bytes := by
  have h := (silent hb rest []).append bytes
  rwa [List.append_nil] at h

/-- Bytes become dimmer where some of them are exchanged for bytes that
say nothing to the look ahead. -/
theorem map {f : UInt8 → UInt8} (hf : ∀ b, f b = b ∨ Silent (f b)) (bytes : List UInt8) :
    Dimmer (bytes.map f) bytes := by
  induction bytes with
  | nil => exact nil []
  | cons b rest ih =>
    rcases hf b with hb | hb
    · rw [List.map_cons, hb]
      exact ih.cons b
    · exact silent hb _ _

end Dimmer

/-! ### One byte -/

section Step
variable {classes others : ClassTable} {reals : Bool} {n next : Numeral} {b : UInt8}
  {rest other : List UInt8}

/-- A sign that is taken is taken again before other bytes that begin
with a digit too. -/
theorem nextSign?_eq_some_of_digit (h : n.nextSign? reals b rest = some next)
    (hdigit : rest.head?.any isDigit = true → other.head?.any isDigit = true) :
    n.nextSign? reals b other = some next := by
  unfold nextSign? at h ⊢
  split at h
  · next hall =>
    simp only [Bool.and_eq_true] at hall
    rw [if_pos (by simp [hall.1, hdigit hall.2])]
    exact h
  · cases h

/-- A letter that is taken is taken again before other bytes that show
the same of a hexadecimal marker and, if the letter is the marker of
an exponent, show one too. -/
theorem nextLetter?_eq_some_of_ahead (h : n.nextLetter? reals b rest = some next)
    (hsuffix : suffixAhead other = suffixAhead rest)
    (hexponent : reals = true → next.endsInMarker = true →
      exponentAhead rest = true → exponentAhead other = true) :
    n.nextLetter? reals b other = some next := by
  unfold nextLetter? at h ⊢
  rw [hsuffix]
  -- The two markers are taken whatever stands behind them. Only the other cases look ahead.
  by_cases hprefix : isPrefixMarker b = true
  · rw [if_pos hprefix] at h ⊢
    exact h
  rw [if_neg hprefix] at h ⊢
  by_cases hmarker : isSuffixMarker b = true
  · rw [if_pos hmarker] at h ⊢
    exact h
  rw [if_neg hmarker] at h ⊢
  by_cases hhex : (isHexDigit b && (n.hexPrefix || suffixAhead rest)) = true
  · rw [if_pos hhex] at h ⊢
    exact h
  rw [if_neg hhex] at h ⊢
  split at h
  · next hall =>
    simp only [Bool.and_eq_true] at hall
    have hnext : next.endsInMarker = true := by
      cases h
      simp [endsInMarker, keep, hall.1.1.1]
    rw [if_pos (by simp [hall.1.1.1, hall.1.1.2, hall.1.2,
      hexponent hall.1.1.2 hnext hall.2])]
    exact h
  · cases h

/-- A byte that is taken is taken again before other bytes, if these
show the same to the look ahead. What they show of an exponent counts
only if the byte is its marker. -/
theorem next?_eq_some_of_dimmer (h : n.next? classes reals b rest = some next)
    (hclass : others b = classes b) (hdim : Dimmer other rest)
    (hsuffix : suffixAhead rest = true → suffixAhead other = true)
    (hdigit : rest.head?.any isDigit = true → other.head?.any isDigit = true)
    (hexponent : reals = true → next.endsInMarker = true →
      exponentAhead rest = true → exponentAhead other = true) :
    n.next? others reals b other = some next := by
  unfold next? at h ⊢
  rw [hclass]
  cases hb : classes b with
  | delimiter => rw [hb] at h; cases h
  | operator => rw [hb] at h; exact nextSign?_eq_some_of_digit h hdigit
  | digit => rw [hb] at h; exact h
  | other =>
    rw [hb] at h
    exact nextLetter?_eq_some_of_ahead h (Bool.eq_iff_iff.mpr ⟨hdim.suffix, hsuffix⟩) hexponent

/-- A letter that is taken where less is shown is taken where more is
shown. It can be taken as something else then. -/
theorem nextLetter?_isSome_of_dimmer (hdim : Dimmer other rest)
    (h : (n.nextLetter? reals b other).isSome = true) :
    (n.nextLetter? reals b rest).isSome = true := by
  unfold nextLetter? at h ⊢
  by_cases hprefix : isPrefixMarker b = true
  · rw [if_pos hprefix]
    rfl
  rw [if_neg hprefix] at h ⊢
  by_cases hmarker : isSuffixMarker b = true
  · rw [if_pos hmarker]
    rfl
  rw [if_neg hmarker] at h ⊢
  by_cases hhex : (isHexDigit b && (n.hexPrefix || suffixAhead rest)) = true
  · rw [if_pos hhex]
    rfl
  -- What is no digit before the brighter bytes is none before the dimmer ones, where it must
  -- have been the marker of an exponent.
  have hhex' : ¬ (isHexDigit b && (n.hexPrefix || suffixAhead other)) = true := by
    simp only [Bool.and_eq_true, Bool.or_eq_true, not_and, not_or] at hhex ⊢
    exact fun hb => ⟨(hhex hb).1, fun hs => (hhex hb).2 (hdim.suffix hs)⟩
  rw [if_neg hhex'] at h
  rw [if_neg hhex]
  split at h
  · next hall =>
    simp only [Bool.and_eq_true] at hall
    rw [if_pos (by simp [hall.1.1.1, hall.1.1.2, hall.1.2, hdim.exponent hall.2])]
    rfl
  · cases h

/-- A byte that is taken where less is shown is taken where more is
shown. -/
theorem next?_isSome_of_dimmer (hdim : Dimmer other rest) (hclass : others b = classes b)
    (h : (n.next? others reals b other).isSome = true) :
    (n.next? classes reals b rest).isSome = true := by
  unfold next? at h ⊢
  rw [hclass] at h
  cases hb : classes b with
  | delimiter => rw [hb] at h; exact h
  | operator =>
    rw [hb] at h
    obtain ⟨next, hnext⟩ := Option.isSome_iff_exists.mp h
    exact Option.isSome_iff_exists.mpr ⟨next, nextSign?_eq_some_of_digit hnext hdim.digit⟩
  | digit => rw [hb] at h; exact h
  | other => rw [hb] at h; exact nextLetter?_isSome_of_dimmer hdim h

end Step

/-! ### The whole run -/

section Run
variable {classes others : ClassTable} {reals : Bool} {n next : Numeral} {b : UInt8}
  {rest : List UInt8}

/-- A byte that is taken joins those that are taken after it. -/
theorem run_of_next?_eq_some (h : n.next? classes reals b rest = some next) :
    n.run classes reals (b :: rest)
      = ((next.run classes reals rest).1, b :: (next.run classes reals rest).2.1,
          (next.run classes reals rest).2.2) := by
  rw [run, h]

/-- The first byte that is not taken ends the run, and is left with those
behind it. -/
theorem run_of_next?_eq_none (h : n.next? classes reals b rest = none) :
    n.run classes reals (b :: rest) = (n, [], b :: rest) := by
  rw [run, h]

/-- A number takes no delimiter, whatever it has taken before. -/
theorem next?_delimiter (h : classes b = .delimiter) : n.next? classes reals b rest = none := by
  rw [next?, h]

/-- What holds of every byte that is taken holds of all that a run
takes. -/
theorem forall_taken {P : UInt8 → Prop}
    (h : ∀ {n next : Numeral} {b : UInt8} {rest : List UInt8},
      n.next? classes reals b rest = some next → P b) (n : Numeral) (bytes : List UInt8) :
    ∀ b ∈ (n.run classes reals bytes).2.1, P b := by
  induction bytes generalizing n with
  | nil =>
    intro b hb
    cases hb
  | cons c rest ih =>
    cases hnext : n.next? classes reals c rest with
    | none =>
      rw [run_of_next?_eq_none hnext]
      intro b hb
      cases hb
    | some next =>
      rw [run_of_next?_eq_some hnext]
      exact List.forall_mem_cons.mpr ⟨h hnext, ih next⟩

/-- Where a run has stopped it takes nothing more, if it is begun again
there. -/
theorem run_taken_left (n : Numeral) (classes : ClassTable) (reals : Bool)
    (bytes : List UInt8) :
    ((n.run classes reals bytes).1.run classes reals (n.run classes reals bytes).2.2).2.1
      = [] := by
  induction bytes generalizing n with
  | nil => rfl
  | cons b rest ih =>
    cases h : n.next? classes reals b rest with
    | none =>
      -- The second run has the same byte before it, and leaves it too.
      simp only [run_of_next?_eq_none h]
    | some next =>
      rw [run_of_next?_eq_some h]
      exact ih next

end Run

/-! ### The bytes taken bear the look ahead out -/

/-- The bytes begin with a byte that is a delimiter only because it
was pinned. -/
def StopsAtPin (classes : ClassTable) (bytes : List UInt8) : Prop :=
  ∃ b ∈ bytes.head?, classes b = .delimiter ∧ ByteClass.ofByte b ≠ .delimiter

section Taken
variable {classes others : ClassTable} {mode : Mode} {n : Numeral} {b : UInt8}
  {rest : List UInt8}

/-- A byte that would be taken if it were not pinned is taken, unless
the run stops at a pin. -/
theorem next?_of_not_stopsAtPin
    (hclasses : ∀ b, classes b = .delimiter ∨ classes b = mode.classes .standard b)
    (hb : ByteClass.ofByte b ≠ .delimiter)
    (hstop : ¬ StopsAtPin classes (n.run classes (mode == .real) (b :: rest)).2.2)
    (htaken : classes b = mode.classes .standard b →
      (n.next? classes (mode == .real) b rest).isSome = true) :
    ∃ next, n.next? classes (mode == .real) b rest = some next ∧
      ¬ StopsAtPin classes (next.run classes (mode == .real) rest).2.2 := by
  rcases hclasses b with hpin | hclass
  · rw [run_of_next?_eq_none (next?_delimiter hpin)] at hstop
    exact absurd ⟨b, rfl, hpin, hb⟩ hstop
  · obtain ⟨next, hnext⟩ := Option.isSome_iff_exists.mp (htaken hclass)
    rw [run_of_next?_eq_some hnext] at hstop
    exact ⟨next, hnext, hstop⟩

/-- A decimal digit is always taken, if it has the class of the mode. -/
theorem next?_isSome_of_isDigit (hmode : mode ≠ .word)
    (hclass : classes b = mode.classes .standard b) (hdigit : isDigit b = true) :
    (n.next? classes (mode == .real) b rest).isSome = true := by
  rw [next?, hclass, classes_of_isDigit hmode hdigit]
  simp [nextDigit?, hdigit]

/-- A hexadecimal digit or marker is taken, if it has the class of the
mode and there are only hexadecimal digits up to a marker. -/
theorem next?_isSome_of_suffixAhead (hmode : mode ≠ .word)
    (hclass : classes b = mode.classes .standard b) (h : suffixAhead (b :: rest) = true) :
    (n.next? classes (mode == .real) b rest).isSome = true := by
  rw [suffixAhead_cons] at h
  by_cases hhex : isHexDigit b = true
  · rw [if_pos hhex] at h
    cases hdigit : isDigit b with
    | true => exact next?_isSome_of_isDigit hmode hclass hdigit
    | false =>
      rw [next?, hclass, classes_of_isHexDigit hhex hdigit]
      cases hprefix : isPrefixMarker b <;> cases hmarker : isSuffixMarker b <;>
        simp [nextLetter?, hprefix, hmarker, hhex, h]
  · rw [if_neg hhex] at h
    rw [next?, hclass, classes_of_isSuffixMarker h]
    cases hprefix : isPrefixMarker b <;> simp [nextLetter?, hprefix, h]

/-- A sign behind the marker of an exponent is taken before a digit. -/
theorem next?_isSome_of_sign (hmode : mode = .real)
    (hclass : classes b = mode.classes .standard b) (hends : n.endsInMarker = true)
    (hsign : isSign b = true ∨ b = underscore) (hdigit : rest.head?.any isDigit = true) :
    (n.next? classes (mode == .real) b rest).isSome = true := by
  subst hmode
  rcases hsign with hsign | rfl
  · rw [next?, hclass, classes_of_isSign (by decide) hsign]
    simp [nextSign?, hsign, hends, hdigit]
  · rw [next?, hclass, classes_underscore]
    have hplain : isDigit underscore = false ∧ (underscore == '.'.toUInt8) = false := by decide
    simp [nextDigit?, hplain.1, hplain.2, hends]

variable (hmode : mode ≠ .word)
  (hclasses : ∀ b, classes b = .delimiter ∨ classes b = mode.classes .standard b)
include hmode hclasses

/-- A digit that the look ahead finds is taken. -/
theorem isDigit_taken (n : Numeral) {bytes : List UInt8}
    (hstop : ¬ StopsAtPin classes (n.run classes (mode == .real) bytes).2.2)
    (h : bytes.head?.any isDigit = true) :
    (n.run classes (mode == .real) bytes).2.1.head?.any isDigit = true := by
  cases bytes with
  | nil => cases h
  | cons b rest =>
    have hdigit : isDigit b = true := h
    have hb : ByteClass.ofByte b ≠ .delimiter := fun hdel => by
      rw [(silent_of_delimiter hdel).digit] at hdigit
      cases hdigit
    obtain ⟨next, hnext, -⟩ := next?_of_not_stopsAtPin hclasses hb hstop
      fun hclass => next?_isSome_of_isDigit hmode hclass hdigit
    rw [run_of_next?_eq_some hnext]
    exact h

/-- The marker that the look ahead finds is taken, with all digits
before it. -/
theorem suffixAhead_taken (n : Numeral) {bytes : List UInt8}
    (hstop : ¬ StopsAtPin classes (n.run classes (mode == .real) bytes).2.2)
    (h : suffixAhead bytes = true) :
    suffixAhead (n.run classes (mode == .real) bytes).2.1 = true := by
  induction bytes generalizing n with
  | nil => cases h
  | cons b rest ih =>
    -- The byte says something, so only a pin could make it a delimiter.
    have hb : ByteClass.ofByte b ≠ .delimiter := fun hdel => by
      have hsilent := silent_of_delimiter hdel
      rw [suffixAhead_cons, hsilent.hexDigit, hsilent.suffixMarker] at h
      cases h
    obtain ⟨next, hnext, hstop'⟩ := next?_of_not_stopsAtPin hclasses hb hstop
      fun hclass => next?_isSome_of_suffixAhead hmode hclass h
    rw [run_of_next?_eq_some hnext]
    rw [suffixAhead_cons] at h ⊢
    by_cases hhex : isHexDigit b = true
    · rw [if_pos hhex] at h ⊢
      exact ih next hstop' h
    · rw [if_neg hhex] at h ⊢
      exact h

/-- The exponent that the look ahead finds is taken up to its first
digit. -/
theorem exponentAhead_taken (hreal : mode = .real) (hends : n.endsInMarker = true)
    {bytes : List UInt8}
    (hstop : ¬ StopsAtPin classes (n.run classes (mode == .real) bytes).2.2)
    (h : exponentAhead bytes = true) :
    exponentAhead (n.run classes (mode == .real) bytes).2.1 = true := by
  cases bytes with
  | nil => cases h
  | cons b rest =>
    simp only [exponentAhead, Bool.or_eq_true, Bool.and_eq_true, beq_iff_eq] at h
    have hb : ByteClass.ofByte b ≠ .delimiter := fun hdel => by
      have hsilent := silent_of_delimiter hdel
      have hunderscore : b ≠ underscore := by simpa using hsilent.underscore
      simp [hsilent.digit, hsilent.sign, hunderscore] at h
    obtain ⟨next, hnext, hstop'⟩ := next?_of_not_stopsAtPin hclasses hb hstop fun hclass => by
      rcases h with hdigit | ⟨hsign, hdigit⟩
      · exact next?_isSome_of_isDigit hmode hclass hdigit
      · exact next?_isSome_of_sign hreal hclass hends hsign hdigit
    rw [run_of_next?_eq_some hnext]
    simp only [exponentAhead, Bool.or_eq_true, Bool.and_eq_true, beq_iff_eq]
    rcases h with hdigit | ⟨hsign, hdigit⟩
    · exact Or.inl hdigit
    · exact Or.inr ⟨hsign, isDigit_taken hmode hclasses next hstop' hdigit⟩

/-- What a numeral takes is all that it depends on. The bytes behind
can be exchanged for dimmer ones of which it takes none. It must not
have been stopped by a pin then, unless the new bytes show just what
the old ones did. -/
theorem run_taken (n : Numeral) {bytes left : List UInt8}
    (hshown : Dimmer (n.run classes (mode == .real) bytes).2.2 left ∨
      ¬ StopsAtPin classes (n.run classes (mode == .real) bytes).2.2)
    (hagree : ∀ b ∈ (n.run classes (mode == .real) bytes).2.1, others b = classes b)
    (hdim : Dimmer left (n.run classes (mode == .real) bytes).2.2)
    (hleft : (n.run classes (mode == .real) bytes).1.run others (mode == .real) left
      = ((n.run classes (mode == .real) bytes).1, [], left)) :
    n.run others (mode == .real) ((n.run classes (mode == .real) bytes).2.1 ++ left)
      = ((n.run classes (mode == .real) bytes).1, (n.run classes (mode == .real) bytes).2.1,
          left) := by
  -- The induction is on the bytes of the old run. The new run has those that the old one takes
  -- before it, so each step asks what they show with `left` behind them.
  induction bytes generalizing n with
  | nil => exact hleft
  | cons b rest ih =>
    cases h : n.next? classes (mode == .real) b rest with
    | none =>
      rw [run_of_next?_eq_none h] at hleft ⊢
      exact hleft
    | some next =>
      rw [run_of_next?_eq_some h] at hshown hagree hdim hleft ⊢
      have hrest := next.run_append classes (mode == .real) rest
      -- The bytes behind `b`, as the new run meets them, show no more than the old ones did.
      have hbehind : Dimmer ((next.run classes (mode == .real) rest).2.1 ++ left) rest := by
        have := hdim.append (next.run classes (mode == .real) rest).2.1
        rwa [hrest] at this
      have hsome : n.next? others (mode == .real) b
          ((next.run classes (mode == .real) rest).2.1 ++ left) = some next := by
        rcases hshown with hshown | hstop
        · have hsame : Dimmer rest ((next.run classes (mode == .real) rest).2.1 ++ left) := by
            have := hshown.append (next.run classes (mode == .real) rest).2.1
            rwa [hrest] at this
          exact next?_eq_some_of_dimmer h (hagree b (by simp)) hbehind hsame.suffix
            hsame.digit fun _ _ => hsame.exponent
        · have hbright := Dimmer.append_right (next.run classes (mode == .real) rest).2.1 left
          exact next?_eq_some_of_dimmer h (hagree b (by simp)) hbehind
            (fun hs => hbright.suffix (suffixAhead_taken hmode hclasses next hstop hs))
            (fun hd => hbright.digit (isDigit_taken hmode hclasses next hstop hd))
            (fun hreal hends he => hbright.exponent
              (exponentAhead_taken hmode hclasses (by simpa using hreal) hends hstop he))
      rw [List.cons_append, run_of_next?_eq_some hsome,
        ih next hshown (fun c hc => hagree c (by simp [hc])) hdim hleft]

end Taken

end LineLexer.Numeral
