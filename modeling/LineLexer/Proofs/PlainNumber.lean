import LineLexer.Proofs.SignAndRun
import LineLexer.Proofs.Taken

/-!
# `LineLexer.Proofs.PlainNumber`: the longest number

Where no real numbers are read a numeral decides letter by letter. It
looks ahead for a marker behind a hexadecimal letter, and an `x` that
it has read lets it take all letters that follow. Still it stops where
the longest word of `Grammar.plainNumber` does.

* `Numeral.takesAll`: whether all bytes are taken, as a test on the
  bytes alone.
* `mem_groups_iff`: the test and the grammar agree.
* `takesAll_run`, `takesAll_longest`: a run takes bytes that pass the
  test, and no more of those before it do.
* `Cursor.scan_plain_number`: the token of a number covers its sign
  and the longest word of the grammar.
-/

set_option autoImplicit false

namespace LineLexer

open Ascii

namespace Numeral

open Grammar
open scoped Computability

/-! ### One byte -/

/-- Whether an `x` has been read when a number has taken the byte, if
it takes it: a marker or a decimal digit always, a hexadecimal letter
behind an `x` or before a marker. -/
def prefixAfter? (prefixed : Bool) (b : UInt8) (rest : List UInt8) : Option Bool :=
  if isPrefixMarker b then some true
  else if isDigit b || isSuffixMarker b || (isHexDigit b && (prefixed || suffixAhead rest)) then
    some prefixed
  else none

/-- Whether a number takes all of the bytes, after an `x` or without
one. -/
def takesAll (prefixed : Bool) : List UInt8 → Bool
  | [] => true
  | b :: rest => (prefixAfter? prefixed b rest).any fun after => takesAll after rest

section Step
variable {n next : Numeral} {b : UInt8} {rest other : List UInt8} {prefixed after : Bool}

/-- Of the bytes behind a byte only the marker that they show counts for
taking it. -/
theorem prefixAfter?_of_suffixAhead (hsuffix : suffixAhead rest = true → suffixAhead other = true)
    (h : prefixAfter? prefixed b rest = some after) :
    prefixAfter? prefixed b other = some after := by
  unfold prefixAfter? at h ⊢
  by_cases hmarked : isPrefixMarker b = true
  · rw [if_pos hmarked] at h ⊢
    exact h
  rw [if_neg hmarked] at h ⊢
  split at h
  · next htaken =>
    simp only [Bool.or_eq_true, Bool.and_eq_true] at htaken
    rw [if_pos]
    · exact h
    · simp only [Bool.or_eq_true, Bool.and_eq_true]
      exact htaken.imp_right fun hhex => ⟨hhex.1, hhex.2.imp_right hsuffix⟩
  · cases h

/-- Hexadecimal letters and markers have class other where no real numbers
are read. -/
theorem classes_plain_letter (hdigit : isDigit b = false)
    (h : isPrefixMarker b = true ∨ isSuffixMarker b = true ∨ isHexDigit b = true) :
    Mode.plain.classes .standard b = .other := by
  revert b
  apply forall_byte
  decide +kernel

/-- A hexadecimal digit is no marker in front of digits, and the marker
behind digits is not the one in front. -/
theorem isPrefixMarker_eq_false (h : isHexDigit b = true ∨ isSuffixMarker b = true) :
    isPrefixMarker b = false := by
  revert b
  apply forall_byte
  decide +kernel

/-- A byte that passes the test is taken by a number, and the number has
then read an `x` or not as the test says. -/
theorem next?_of_prefixAfter? (h : prefixAfter? n.hexPrefix b rest = some after) :
    ∃ next, n.next? (Mode.plain.classes .standard) false b rest = some next ∧
      next.hexPrefix = after := by
  unfold prefixAfter? at h
  cases hb : isDigit b with
  | true =>
    -- A digit is taken by its class, and changes nothing about an `x`.
    have hmarked := isPrefixMarker_eq_false (Or.inl (isHexDigit_of_isDigit hb))
    rw [next?, classes_plain_eq_digit_iff.mpr hb, nextDigit?, if_pos hb]
    simp only [hmarked, hb, Bool.false_eq_true, if_false, Bool.true_or, if_true,
      Option.some.injEq] at h
    exact ⟨_, rfl, h⟩
  | false =>
    -- Any other byte that passes is a letter: an `x`, an `h` or a hexadecimal digit.
    rw [hb, Bool.false_or] at h
    split at h
    · next hmarked =>
      rw [next?, classes_plain_letter hb (Or.inl hmarked), nextLetter?, if_pos hmarked]
      exact ⟨_, rfl, Option.some.inj h⟩
    · next hmarked =>
      split at h
      · next htaken =>
        rw [Bool.or_eq_true] at htaken
        cases hsuffix : isSuffixMarker b with
        | true =>
          rw [next?, classes_plain_letter hb (Or.inr (Or.inl hsuffix)), nextLetter?,
            if_neg hmarked, if_pos hsuffix]
          exact ⟨_, rfl, Option.some.inj h⟩
        | false =>
          have hhex : (isHexDigit b && (n.hexPrefix || suffixAhead rest)) = true :=
            htaken.resolve_left (by simp [hsuffix])
          have hclass := classes_plain_letter hb (Or.inr (Or.inr (Bool.and_eq_true _ _ ▸ hhex).1))
          rw [next?, hclass, nextLetter?, if_neg hmarked, if_neg (by simp [hsuffix]), if_pos hhex]
          exact ⟨_, rfl, Option.some.inj h⟩
      · cases h

/-- A byte that a number takes passes the test, and the number has then
read an `x` or not as the test says. The number is no real number unless
it was one. -/
theorem prefixAfter?_of_next?
    (h : n.next? (Mode.plain.classes .standard) false b rest = some next) :
    prefixAfter? n.hexPrefix b rest = some next.hexPrefix ∧ next.isReal = n.isReal := by
  unfold next? at h
  cases hclass : Mode.plain.classes .standard b with
  | delimiter =>
    rw [hclass] at h
    cases h
  | operator =>
    rw [hclass] at h
    cases h
  | digit =>
    have hb := classes_plain_eq_digit_iff.mp hclass
    have hmarked := isPrefixMarker_eq_false (Or.inl (isHexDigit_of_isDigit hb))
    rw [hclass] at h
    simp only [nextDigit?, hb, if_true, Option.some.injEq] at h
    subst h
    simp [prefixAfter?, hmarked, hb, keep, isReal]
  | other =>
    rw [hclass] at h
    -- The branches of the letter are those of the test, in the same order.
    simp only [nextLetter?] at h
    split at h
    · next hmarked =>
      cases h
      simp [prefixAfter?, hmarked, keep, isReal]
    split at h
    · next hmarked hsuffix =>
      cases h
      simp [prefixAfter?, hmarked, hsuffix, isReal]
    split at h
    · next hmarked hsuffix hhex =>
      cases h
      simp [prefixAfter?, hmarked, hsuffix, hhex, keep, isReal]
    · simp at h

end Step

/-! ### The whole run -/

section Run
variable {n : Numeral} {bytes : List UInt8}

/-- With nothing pinned no byte is left because it is pinned. -/
theorem not_stopsAtPin (mode : Mode) (bytes : List UInt8) :
    ¬ StopsAtPin (mode.classes .standard) bytes := by
  rintro ⟨b, -, hdel, hstandard⟩
  rw [Mode.classes_eq_delimiter_iff] at hdel
  exact hstandard hdel

/-- The marker that the look ahead finds is taken where nothing is
pinned. -/
theorem suffixAhead_run (n : Numeral) {bytes : List UInt8} (h : suffixAhead bytes = true) :
    suffixAhead (n.run (Mode.plain.classes .standard) false bytes).2.1 = true := by
  have hmode : Mode.plain ≠ .word := by decide
  exact suffixAhead_taken hmode (fun _ => Or.inr rfl) n (not_stopsAtPin .plain _) h

/-- The bytes that a number takes pass the test, and it is no real
number unless it was one. -/
theorem takesAll_run (n : Numeral) (bytes : List UInt8) :
    let run := n.run (Mode.plain.classes .standard) false bytes
    takesAll n.hexPrefix run.2.1 = true ∧ run.1.isReal = n.isReal := by
  induction bytes generalizing n with
  | nil => simp [run, takesAll]
  | cons b rest ih =>
    cases h : n.next? (Mode.plain.classes .standard) false b rest with
    | none =>
      rw [run_of_next?_eq_none h]
      simp [takesAll]
    | some next =>
      obtain ⟨hmarked, hreal⟩ := prefixAfter?_of_next? h
      obtain ⟨htakes, hreal'⟩ := ih next
      -- What the look ahead has found is among the bytes that are taken.
      have htaken := prefixAfter?_of_suffixAhead (suffixAhead_run next) hmarked
      rw [run_of_next?_eq_some h]
      refine ⟨?_, hreal'.trans hreal⟩
      show takesAll n.hexPrefix (b :: _) = true
      rw [takesAll]
      exact (Option.any_eq_true ..).mpr ⟨next.hexPrefix, htaken, htakes⟩

/-- A number takes all bytes that pass the test, whatever stands behind
them. -/
theorem takesAll_longest {n : Numeral} {bytes v : List UInt8} (hv : v <+: bytes)
    (htakes : takesAll n.hexPrefix v = true) :
    v <+: (n.run (Mode.plain.classes .standard) false bytes).2.1 := by
  induction bytes generalizing n v with
  | nil =>
    rw [List.prefix_nil.mp hv]
    exact List.nil_prefix
  | cons b rest ih =>
    cases v with
    | nil => exact List.nil_prefix
    | cons c v =>
      obtain ⟨rfl, left, rfl⟩ := List.cons_prefix_cons.mp hv
      rw [takesAll, Option.any_eq_true] at htakes
      obtain ⟨after, hafter, htakes⟩ := htakes
      -- The bytes before the number show all that `v` shows.
      have hafter' := prefixAfter?_of_suffixAhead (Dimmer.append_right v left).suffix hafter
      obtain ⟨next, hnext, rfl⟩ := next?_of_prefixAfter? hafter'
      rw [run_of_next?_eq_some hnext]
      exact List.cons_prefix_cons.mpr ⟨rfl, ih (List.prefix_append v left) htakes⟩

end Run

/-! ### The test and the grammar -/

section Words
variable {b h : UInt8} {hs w : List UInt8}

/-- Behind an `x` exactly hexadecimal digits and markers pass the test, in
any order. -/
theorem takesAll_true_iff : takesAll true w = true ↔ w ∈ (hexDigit + byte isHexMarkerByte)∗ := by
  rw [hexDigit, byte_add, mem_kstar_byte]
  induction w with
  | nil => simp [takesAll]
  | cons b w ih =>
    have hafter : ∀ rest, prefixAfter? true b rest
        = if isHexDigit b || isHexMarkerByte b then some true else none := by
      intro rest
      have hdigit := isHexDigit_of_isDigit (b := b)
      unfold prefixAfter? isHexMarkerByte
      cases hp : isPrefixMarker b <;> cases hs : isSuffixMarker b <;> cases hd : isDigit b <;>
        cases hh : isHexDigit b <;> simp_all
    rw [takesAll, hafter, List.forall_mem_cons, ← ih]
    cases isHexDigit b || isHexMarkerByte b <;> simp

/-- A decimal digit passes the test, and what follows it is tested as it
would be alone. -/
theorem takesAll_cons_digit {prefixed : Bool} (hb : isDigit b = true) (w : List UInt8) :
    takesAll prefixed (b :: w) = takesAll prefixed w := by
  have hmarked := isPrefixMarker_eq_false (Or.inl (isHexDigit_of_isDigit hb))
  simp [takesAll, prefixAfter?, hmarked, hb]

/-- Hexadecimal digits and the marker behind them pass the test, and what
follows the marker is tested as it would be alone. -/
theorem takesAll_append_suffix (hhs : ∀ b ∈ hs, isHexDigit b = true) (hh : isSuffixMarker h = true)
    (w : List UInt8) : takesAll false (hs ++ h :: w) = takesAll false w := by
  induction hs with
  | nil => simp [takesAll, prefixAfter?, isPrefixMarker_eq_false (Or.inr hh), hh]
  | cons b hs ih =>
    obtain ⟨hb, hhs⟩ := List.forall_mem_cons.mp hhs
    have hahead : suffixAhead (hs ++ h :: w) = true := by
      have hmarker : isHexDigit h = false := not_isHexDigit_of_isMarker.1 hh
      rw [suffixAhead, List.dropWhile_append_of_pos hhs]
      simp [hmarker, hh]
    rw [List.cons_append, takesAll, prefixAfter?]
    simp only [isPrefixMarker_eq_false (Or.inl hb), hb, hahead, Bool.false_eq_true, if_false,
      Bool.or_true, Bool.and_true, if_true, Option.any_some]
    exact ih hhs

/-- What shows a marker to the look ahead begins with a run of
hexadecimal digits and that marker. -/
theorem exists_of_suffixAhead (hw : suffixAhead w = true) :
    ∃ hs h more, w = hs ++ h :: more ∧ (∀ b ∈ hs, isHexDigit b = true) ∧
      isSuffixMarker h = true := by
  unfold suffixAhead at hw
  cases hrest : w.dropWhile isHexDigit with
  | nil =>
    rw [hrest] at hw
    cases hw
  | cons h more =>
    rw [hrest] at hw
    refine ⟨w.takeWhile isHexDigit, h, more, ?_, fun b hb => List.mem_takeWhile_imp hb, hw⟩
    rw [← hrest, List.takeWhile_append_dropWhile]

/-- A group of digits in front of what may follow a digit may follow a
digit as well. -/
theorem append_mem_groups {u : List UInt8} (hu : u ∈ group) (hw : w ∈ groups) :
    u ++ w ∈ groups := by
  obtain ⟨x, hx, y, hy, rfl⟩ := Language.mem_mul.mp hw
  rw [← List.append_assoc]
  exact Language.append_mem_mul (append_mem_kstar hu hx) hy

/-- Bytes that pass the test are what the grammar lets follow a digit. -/
theorem mem_groups_of_takesAll (hw : takesAll false w = true) : w ∈ groups := by
  -- A letter takes the digits up to its marker with it, so the induction is on the length.
  induction hlength : w.length using Nat.strong_induction_on generalizing w with
  | _ length ih =>
    cases w with
    | nil => exact ⟨[], Language.nil_mem_kstar _, [], mem_optional.mpr (Or.inl rfl), rfl⟩
    | cons b w =>
      rw [List.length_cons] at hlength
      rw [takesAll, Option.any_eq_true] at hw
      obtain ⟨after, hafter, hw⟩ := hw
      unfold prefixAfter? at hafter
      split at hafter
      · next hmarked =>
        cases hafter
        refine ⟨[], Language.nil_mem_kstar _, b :: w, mem_optional.mpr (Or.inr ?_), rfl⟩
        exact Language.append_mem_mul (singleton_mem_byte.mpr hmarked) (takesAll_true_iff.mp hw)
      split at hafter
      · next htaken =>
        cases hafter
        simp only [Bool.or_eq_true, Bool.and_eq_true, Bool.false_eq_true, false_or] at htaken
        rcases htaken with (hdigit | hsuffix) | ⟨hhex, hahead⟩
        · have hgroup : [b] ∈ group := Or.inl (singleton_mem_byte.mpr hdigit)
          exact append_mem_groups hgroup (ih w.length (by omega) hw rfl)
        · have hgroup : [b] ∈ group :=
            Or.inr ⟨[], Language.nil_mem_kstar _, [b], singleton_mem_byte.mpr hsuffix, rfl⟩
          exact append_mem_groups hgroup (ih w.length (by omega) hw rfl)
        · obtain ⟨hs, h, more, rfl, hhs, hh⟩ := exists_of_suffixAhead hahead
          have hall : ∀ c ∈ b :: hs, isHexDigit c = true := List.forall_mem_cons.mpr ⟨hhex, hhs⟩
          have hgroup : (b :: hs) ++ [h] ∈ group := Or.inr
            (Language.append_mem_mul (mem_kstar_byte.mpr hall) (singleton_mem_byte.mpr hh))
          rw [takesAll_append_suffix hhs hh] at hw
          rw [List.length_append, List.length_cons] at hlength
          have hmore := append_mem_groups hgroup (ih more.length (by omega) hw rfl)
          rwa [List.append_assoc, List.singleton_append, List.cons_append] at hmore
      · cases hafter

/-- What the grammar lets follow a digit passes the test. -/
theorem takesAll_of_mem_groups (hw : w ∈ groups) : takesAll false w = true := by
  obtain ⟨u, hu, v, hv, rfl⟩ := Language.mem_mul.mp hw
  refine kstar_induction (P := fun u => takesAll false (u ++ v) = true) ?_ ?_ hu
  · rcases mem_optional.mp hv with rfl | hv
    · rfl
    · obtain ⟨_, ⟨x, hx, rfl⟩, more, hmore, rfl⟩ := Language.mem_mul.mp hv
      have htakes := takesAll_true_iff.mpr hmore
      simp [takesAll, prefixAfter?, hx, htakes]
  · rintro g hg u hu
    rcases (Language.mem_add _ _ _).mp hg with ⟨d, hd, rfl⟩ | hg
    · rw [List.singleton_append, List.cons_append, takesAll_cons_digit hd]
      exact hu
    · obtain ⟨hs, hhs, _, ⟨h, hh, rfl⟩, rfl⟩ := Language.mem_mul.mp hg
      rw [List.append_assoc, List.append_assoc, List.singleton_append,
        takesAll_append_suffix (mem_kstar_byte.mp hhs) hh]
      exact hu

/-- The test and the grammar agree about what may follow the first digit
of a number. -/
theorem mem_groups_iff : w ∈ groups ↔ takesAll false w = true :=
  ⟨takesAll_of_mem_groups, mem_groups_of_takesAll⟩

/-- A number of the grammar is a digit and bytes that pass the test. -/
theorem cons_mem_plainNumber_iff :
    b :: w ∈ plainNumber ↔ isDigit b = true ∧ takesAll false w = true := by
  rw [plainNumber, Language.mem_mul, ← mem_groups_iff]
  constructor
  · rintro ⟨_, ⟨d, hd, rfl⟩, v, hv, heq⟩
    obtain ⟨rfl, rfl⟩ := List.cons.inj heq
    exact ⟨hd, hv⟩
  · rintro ⟨hd, hw⟩
    exact ⟨[b], singleton_mem_byte.mpr hd, w, hw, rfl⟩

/-- What a number takes of bytes that begin with a digit is the longest
word of the grammar that they begin with. -/
theorem isLongestPrefix_run {n : Numeral} (hn : n.hexPrefix = false) {d : UInt8}
    (hd : isDigit d = true) (rest : List UInt8) :
    IsLongestPrefix plainNumber (d :: rest)
      (n.run (Mode.plain.classes .standard) false (d :: rest)).2.1 := by
  have hlongest : ∀ v, v <+: d :: rest → takesAll false v = true →
      v <+: (n.run (Mode.plain.classes .standard) false (d :: rest)).2.1 := by
    intro v hv htakes
    exact takesAll_longest hv (hn ▸ htakes)
  have hfront : (n.run (Mode.plain.classes .standard) false (d :: rest)).2.1 <+: d :: rest :=
    ⟨_, run_append ..⟩
  have htakes := (takesAll_run n (d :: rest)).1
  rw [hn] at htakes
  -- The digit is taken, so the bytes that are taken begin with it.
  have hdigit := hlongest [d] (List.cons_prefix_cons.mpr ⟨rfl, List.nil_prefix⟩)
    (takesAll_cons_digit hd [])
  refine ⟨hfront, ?_, ?_⟩
  · obtain ⟨more, hmore⟩ := hdigit
    rw [← hmore, List.singleton_append] at htakes ⊢
    rw [takesAll_cons_digit hd] at htakes
    exact cons_mem_plainNumber_iff.mpr ⟨hd, htakes⟩
  · intro v hv hmem
    cases v with
    | nil => exact Nat.zero_le _
    | cons b v =>
      obtain ⟨hb, htakes⟩ := cons_mem_plainNumber_iff.mp hmem
      exact (hlongest (b :: v) hv ((takesAll_cons_digit hb v).trans htakes)).length_le

end Words

end Numeral

/-! ### The token -/

namespace Cursor

open Grammar Numeral

/-- Where a sign or none and then a decimal digit stand behind
delimiters, a scan with no real numbers returns a number. It begins
with the sign, and ends where the longest word of the grammar ends
that begins with the digit. It is no real number, and hexadecimal
exactly if that word has a marker. -/
theorem scan_plain_number {cursor : Cursor} (hclasses : cursor.classes = .standard) (fold : Bool)
    {skipped sign rest : List UInt8} {d : UInt8}
    (hremaining : cursor.remaining = skipped ++ (sign ++ d :: rest))
    (hskipped : ∀ b ∈ skipped, ByteClass.ofByte b = .delimiter)
    (hsign : sign ∈ optional (byte isSign)) (hd : isDigit d = true) :
    ∃ token next w, cursor.scan .plain fold = (some token, next) ∧ token.byteClass = .digit ∧
      IsLongestPrefix plainNumber (d :: rest) w ∧
      token.span = ⟨cursor.position + skipped.length,
        cursor.position + skipped.length + sign.length + w.length⟩ ∧
      token.flags.real = false ∧
      (token.flags.hex = true ↔ ∃ b ∈ w, isHexMarkerByte b = true) := by
  have hclass : Mode.plain.classes .standard d = .digit := classes_plain_eq_digit_iff.mpr hd
  have hplain : d ≠ underscore := by
    rintro rfl
    cases hd
  have hbegins : Begins .plain sign (d :: rest) := by
    rcases mem_optional_byte.mp hsign with rfl | ⟨s, hs, rfl⟩
    · exact .unsigned hclass hplain
    · exact .signed hs hclass hplain
  obtain ⟨token, next, reported, hscan, -, hspan, hscanned⟩ :=
    scan_of_begins hclasses (by decide) hremaining hskipped hbegins fold
  rw [show (Mode.plain == Mode.real) = false from rfl] at hspan hscanned
  -- The run says what is taken and that no point was among it; the grammar, how far it goes.
  obtain ⟨-, hreal⟩ := takesAll_run (signed (isMinus sign)) (d :: rest)
  obtain ⟨-, hhex⟩ := text_of_run (Mode.plain.classes .standard) false (signed (isMinus sign))
    (d :: rest)
  have hlongest := isLongestPrefix_run (n := signed (isMinus sign)) rfl hd rest
  refine ⟨token, next, _, hscan, hscanned.byteClass, hlongest, ?_, ?_, ?_⟩
  · rw [hspan, List.length_append, Nat.add_assoc _ sign.length]
  · rw [hscanned.flags]
    exact hreal
  · rw [hscanned.flags]
    show Numeral.hex _ = true ↔ _
    rw [hhex, hex_signed, Bool.false_or, List.any_eq_true]

/-- The number `+1a2hx` of the line `; +1a2hx+`, in which the last `+`
has no part. -/
theorem scan_plain_number_with_suffix : ∃ cursor, Settings.standard.cursor?
      [0x3b, 0x20, 0x2b, 0x31, 0x61, 0x32, 0x68, 0x78, 0x2b] = some cursor ∧
    cursor.classes = .standard ∧
    ∃ token next w, cursor.scan .plain true = (some token, next) ∧ token.byteClass = .digit ∧
      IsLongestPrefix plainNumber [0x31, 0x61, 0x32, 0x68, 0x78, 0x2b] w ∧
      token.span = ⟨2, 3 + w.length⟩ ∧ token.flags.real = false ∧
      (token.flags.hex = true ↔ ∃ b ∈ w, isHexMarkerByte b = true) := by
  obtain ⟨cursor, hcursor, hclasses, hstart, hremaining⟩ : ∃ cursor, Settings.standard.cursor?
        [0x3b, 0x20, 0x2b, 0x31, 0x61, 0x32, 0x68, 0x78, 0x2b] = some cursor ∧
      cursor.classes = .standard ∧ cursor.position = 0 ∧
      cursor.remaining = [0x3b, 0x20] ++ ([0x2b] ++ 0x31 :: [0x61, 0x32, 0x68, 0x78, 0x2b]) :=
    ⟨_, rfl, rfl, rfl, rfl⟩
  have hscan := scan_plain_number hclasses true hremaining (by decide +kernel)
    (mem_optional_byte.mpr (Or.inr ⟨0x2b, rfl, rfl⟩)) rfl
  rw [hstart] at hscan
  exact ⟨cursor, hcursor, hclasses, hscan⟩

end Cursor

end LineLexer
