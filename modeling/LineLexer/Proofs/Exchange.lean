import Mathlib.Data.List.TakeWhile
import LineLexer.Proofs.LookAhead
import LineLexer.Scan

/-!
# `LineLexer.Proofs.Exchange`: what may stand behind a lexeme

The reader of a lexeme sees the whole rest of the line. The theorems
here say how little of it matters.

* `Exchange`: when the bytes behind a lexeme may be exchanged for
  others, read with another class table. The new bytes are none, or
  begin with a delimiter, or begin with the same byte in the same
  class, and they show no more to the look ahead of a number.
* `read_exchange`: the lexeme is the same before the new bytes.
* `cut?_exchange`: the next lexeme of some bytes is the same before the
  new bytes, and behind other delimiters.
-/

set_option autoImplicit false

namespace LineLexer.Lexeme

open Ascii Numeral

/-! ### Splitting where a test fails -/

section Split
variable {α : Type} {p : α → Bool} {xs ys : List α}

/-- The longest front of a list that passes a test ends where the test
fails first. -/
theorem takeWhile_append_stop (hxs : ∀ x ∈ xs, p x = true) (hys : ∀ y ∈ ys.head?, p y = false) :
    (xs ++ ys).takeWhile p = xs := by
  rw [List.takeWhile_append_of_pos hxs]
  cases ys with
  | nil => simp
  | cons y ys => simp [hys y rfl]

/-- What is left behind the longest front that passes a test begins where
the test fails first. -/
theorem dropWhile_append_stop (hxs : ∀ x ∈ xs, p x = true) (hys : ∀ y ∈ ys.head?, p y = false) :
    (xs ++ ys).dropWhile p = ys := by
  rw [List.dropWhile_append_of_pos hxs]
  cases ys with
  | nil => rfl
  | cons y ys => simp [hys y rfl]

/-- A test fails on the first element behind the longest front that passes
it. -/
theorem head?_dropWhile_stop (p : α → Bool) (xs : List α) :
    ∀ x ∈ (xs.dropWhile p).head?, p x = false := by
  intro x hx
  have h := List.head?_dropWhile_not p xs
  rw [Option.mem_def.mp hx] at h
  simpa using h

/-- Tests that agree on a list divide it in the same place. -/
theorem splitWhile_congr {q : α → Bool} (h : ∀ x ∈ xs, p x = q x) :
    xs.takeWhile p = xs.takeWhile q ∧ xs.dropWhile p = xs.dropWhile q := by
  induction xs with
  | nil => exact ⟨rfl, rfl⟩
  | cons x xs ih =>
    obtain ⟨hx, hxs⟩ := List.forall_mem_cons.mp h
    obtain ⟨htake, hdrop⟩ := ih hxs
    rw [List.takeWhile_cons, List.takeWhile_cons, List.dropWhile_cons, List.dropWhile_cons, hx,
      htake, hdrop]
    exact ⟨rfl, rfl⟩

/-- The bytes at the front that are taken by their class have that
class. -/
theorem class_of_mem_takeWhile {classes : ClassTable} {c : ByteClass} {bytes : List UInt8}
    {b : UInt8} (h : b ∈ bytes.takeWhile fun b => classes b == c) : classes b = c := by
  have hb := List.mem_takeWhile_imp h
  simpa using hb

/-- A byte that is not among some bytes differs from each of them, in the
form in which a quoted word tests for it. -/
theorem forall_bne {quote : UInt8} {inside : List UInt8} (h : quote ∉ inside) :
    ∀ b ∈ inside, (b != quote) = true := by
  intro b hb
  rw [bne_iff_ne]
  rintro rfl
  exact h hb

/-- The bytes up to the first quote are the bytes inside the quotes, if
the quote is not among those. -/
theorem takeWhile_bne {quote : UInt8} {inside : List UInt8} (h : quote ∉ inside)
    (behind : List UInt8) : (inside ++ quote :: behind).takeWhile (· != quote) = inside := by
  rw [List.takeWhile_append_of_pos (forall_bne h), List.takeWhile_cons_of_neg (by simp),
    List.append_nil]

/-- The bytes from the first quote on are that quote and what stands
behind it, if the quote is not among the bytes inside. -/
theorem dropWhile_bne {quote : UInt8} {inside : List UInt8} (h : quote ∉ inside)
    (behind : List UInt8) :
    (inside ++ quote :: behind).dropWhile (· != quote) = quote :: behind := by
  rw [List.dropWhile_append_of_pos (forall_bne h), List.dropWhile_cons_of_neg (by simp)]

end Split

/-! ### The kinds of readings -/

section Kinds
variable {classes : ClassTable} {mode : Mode} {first : UInt8} {rest : List UInt8}

/-- A byte of class digit begins a number. -/
theorem read_of_digit (h : classes first = .digit) :
    read classes mode first rest = readNumeral classes mode (.start first) rest := by
  rw [read, h]

/-- A byte of class operator begins an operator or a signed number. -/
theorem read_of_operator (h : classes first = .operator) :
    read classes mode first rest = readOperator classes mode first rest := by
  rw [read, h]

/-- A quote of class other begins a quoted word. -/
theorem read_of_quote (h : classes first = .other) (hquote : isQuote first = true) :
    read classes mode first rest = readQuoted classes mode first rest := by
  rw [read, h]
  exact if_pos hquote

/-- Any other byte of class other begins a word. -/
theorem read_of_word (h : classes first = .other) (hquote : isQuote first = false) :
    read classes mode first rest = readWord classes first rest := by
  rw [read, h]
  exact if_neg (by simp [hquote])

/-- A sign before a digit begins a number that covers both and is read on
behind them. -/
theorem readOperator_of_signed {second : UInt8} {behind : List UInt8}
    (h : beginsSigned classes first (second :: behind) = true) :
    readOperator classes mode first (second :: behind)
      = ⟨(readNumeral classes mode (.startSigned first second) behind).lexeme,
          second :: (readNumeral classes mode (.startSigned first second) behind).more,
          (readNumeral classes mode (.startSigned first second) behind).after⟩ := by
  unfold readOperator
  rw [h]

/-- A byte of class operator without a digit behind it is read as the
operator that the first bytes spell. -/
theorem readOperator_of_not_signed {op : Operator} {length : Nat}
    (h : beginsSigned classes first rest = false)
    (hread : Operator.read? (operatorBytes classes first rest) = some (op, length)) :
    readOperator classes mode first rest
      = ⟨.operator op (first :: rest.take (length - 1)), rest.take (length - 1),
          rest.drop (length - 1)⟩ := by
  unfold readOperator
  rw [h, hread]
  cases rest <;> rfl

/-- A byte of class operator that begins no operator and no number begins
a word. -/
theorem readOperator_of_none (h : beginsSigned classes first rest = false)
    (hread : Operator.read? (operatorBytes classes first rest) = none) :
    readOperator classes mode first rest = readWord classes first rest := by
  unfold readOperator
  rw [h, hread]
  cases rest <;> rfl

/-- A quote that does not occur again takes all bytes that are left. -/
theorem readQuoted_of_unclosed {quote : UInt8} (h : quote ∉ rest) :
    readQuoted classes mode quote rest = ⟨.quoted rest [], rest, []⟩ := by
  unfold readQuoted
  rw [List.takeWhile_eq_self_iff.mpr (forall_bne h), List.dropWhile_eq_nil_iff.mpr (forall_bne h)]

/-- A quote takes the bytes up to the next one. In word mode the bytes
of class other right behind belong to the word. -/
theorem readQuoted_of_closed {quote : UInt8} {inside behind : List UInt8} (h : quote ∉ inside) :
    readQuoted classes mode quote (inside ++ quote :: behind)
      = if mode = .word then
          ⟨.quoted inside (behind.takeWhile fun b => classes b == .other),
            inside ++ quote :: behind.takeWhile fun b => classes b == .other,
            behind.dropWhile fun b => classes b == .other⟩
        else ⟨.quoted inside [], inside ++ [quote], behind⟩ := by
  unfold readQuoted
  rw [takeWhile_bne h, dropWhile_bne h]

end Kinds

/-! ### The bytes of an operator -/

/-- An operator of one byte is read from that byte alone. -/
theorem read?_singleton {first : UInt8} {tail : List UInt8} {op : Operator}
    (h : Operator.read? (first :: tail) = some (op, 1)) :
    Operator.read? [first] = some (op, 1) := by
  obtain ⟨simple, hsimple, hpair⟩ := Option.map_eq_some_iff.mp h
  split at hpair
  · cases hpair
  · cases hpair
    simp [Operator.read?, hsimple]

/-- An operator of two bytes is read from a second byte of class
operator. -/
theorem eq_cons_of_read?_two {classes : ClassTable} {first : UInt8} {rest : List UInt8}
    {op : Operator} (h : Operator.read? (operatorBytes classes first rest) = some (op, 2)) :
    ∃ second behind, rest = second :: behind ∧ classes second = .operator := by
  have hlength := (Operator.read?_length h).2.2
  cases rest with
  | nil => simp [operatorBytes] at hlength
  | cons second behind =>
    refine ⟨second, behind, rfl, ?_⟩
    by_contra hsecond
    simp [operatorBytes, hsecond] at hlength

/-! ### Exchanging what stands behind -/

/-- The bytes `after`, read with `classes`, may be exchanged for the
bytes `other`, read with `others`, behind a lexeme. -/
structure Exchange (classes others : ClassTable) (after other : List UInt8) : Prop where
  /-- The new bytes show no more to the look ahead than the old ones. -/
  dimmer : Dimmer other after
  /-- The new bytes begin with a delimiter or as the old ones did. -/
  head : ∀ b rest, other = b :: rest → others b = .delimiter ∨
    ∃ behind, after = b :: behind ∧ others b = classes b ∧ Dimmer rest behind

section Readings
variable {classes others : ClassTable} {mode : Mode} {first : UInt8} {rest after other : List UInt8}

/-- A numeral takes none of the new bytes if it took none of the old
ones. -/
theorem Exchange.run_eq (h : Exchange classes others after other) {reals : Bool} {n : Numeral}
    (hstop : (n.run classes reals after).2.1 = []) :
    n.run others reals other = (n, [], other) := by
  cases other with
  | nil => rfl
  | cons b rest =>
    apply run_of_next?_eq_none
    rcases h.head b rest rfl with hdel | ⟨behind, rfl, hclass, hdim⟩
    · exact next?_delimiter hdel
    · -- The byte was left before more was shown, so it is left again.
      by_contra hsome
      have htaken := next?_isSome_of_dimmer hdim hclass (Option.isSome_iff_ne_none.mpr hsome)
      obtain ⟨next, hnext⟩ := Option.isSome_iff_exists.mp htaken
      rw [run_of_next?_eq_some hnext] at hstop
      cases hstop

/-- A byte of class other continues no word before the new bytes if it
did not before the old ones. -/
theorem Exchange.head_ne_other (h : Exchange classes others after other)
    (hstop : ∀ b ∈ after.head?, (classes b == .other) = false) :
    ∀ b ∈ other.head?, (others b == .other) = false := by
  intro b hb
  cases other with
  | nil => cases hb
  | cons c rest =>
    cases hb
    rcases h.head b rest rfl with hdel | ⟨behind, rfl, hclass, -⟩
    · rw [hdel]
      rfl
    · rw [hclass]
      exact hstop b rfl

/-- A sign begins a number before the new bytes only if it did before
the old ones. -/
theorem Exchange.beginsSigned (h : Exchange classes others after other)
    (hsigned : beginsSigned classes first after = false) :
    Lexeme.beginsSigned others first other = false := by
  cases other with
  | nil => simp [Lexeme.beginsSigned]
  | cons b rest =>
    rcases h.head b rest rfl with hdel | ⟨behind, rfl, hclass, -⟩
    · simp [Lexeme.beginsSigned, hdel]
    · simpa [Lexeme.beginsSigned, hclass] using hsigned

/-- The new bytes offer the operator in front the same second byte as
the old ones, or none. -/
theorem Exchange.operatorBytes (h : Exchange classes others after other) (first : UInt8) :
    operatorBytes others first other = [first] ∨
      operatorBytes others first other = Lexeme.operatorBytes classes first after := by
  cases other with
  | nil => exact Or.inl rfl
  | cons b rest =>
    rcases h.head b rest rfl with hdel | ⟨behind, rfl, hclass, -⟩
    · exact Or.inl (by simp [Lexeme.operatorBytes, hdel])
    · exact Or.inr (by simp [Lexeme.operatorBytes, List.filter_cons, hclass])

/-- A number is the same before the new bytes, unless they show less
and a pinned byte has stopped it. -/
theorem readNumeral_exchange (hmode : mode ≠ .word)
    (hclasses : ∀ b, classes b = .delimiter ∨ classes b = mode.classes .standard b)
    (n : Numeral)
    (hagree : ∀ b ∈ (readNumeral classes mode n rest).more, others b = classes b)
    (hex : Exchange classes others (readNumeral classes mode n rest).after other)
    (hshown : Dimmer (readNumeral classes mode n rest).after other ∨
      ¬ StopsAtPin classes (readNumeral classes mode n rest).after) :
    readNumeral others mode n ((readNumeral classes mode n rest).more ++ other)
      = ⟨(readNumeral classes mode n rest).lexeme, (readNumeral classes mode n rest).more,
          other⟩ := by
  have hstop := run_taken_left n classes (mode == .real) rest
  have hrun := run_taken hmode hclasses n hshown hagree hex.dimmer (hex.run_eq hstop)
  unfold readNumeral at hrun ⊢
  dsimp only
  rw [hrun]

/-- A word is read as the same word before the new bytes, and exactly
those are left behind it. -/
theorem readWord_exchange
    (hagree : ∀ b ∈ (readWord classes first rest).more, others b = classes b)
    (hex : Exchange classes others (readWord classes first rest).after other) :
    readWord others first ((readWord classes first rest).more ++ other)
      = ⟨(readWord classes first rest).lexeme, (readWord classes first rest).more, other⟩ := by
  have hmore : ∀ b ∈ (readWord classes first rest).more, (others b == .other) = true := by
    intro b hb
    rw [hagree b hb, beq_iff_eq]
    exact class_of_mem_takeWhile hb
  have hother := hex.head_ne_other (head?_dropWhile_stop _ _)
  unfold readWord at hmore ⊢
  dsimp only at hmore ⊢
  rw [takeWhile_append_stop hmore hother, dropWhile_append_stop hmore hother]

/-- A quoted word is read as the same word before the new bytes. If its
closing quote is missing there may be no new bytes. -/
theorem readQuoted_exchange {quote : UInt8}
    (hagree : ∀ b ∈ (readQuoted classes mode quote rest).more, others b = classes b)
    (hex : Exchange classes others (readQuoted classes mode quote rest).after other)
    (hclosed : quote ∈ (readQuoted classes mode quote rest).more ∨ other = []) :
    readQuoted others mode quote ((readQuoted classes mode quote rest).more ++ other)
      = ⟨(readQuoted classes mode quote rest).lexeme, (readQuoted classes mode quote rest).more,
          other⟩ := by
  by_cases hquote : quote ∈ rest
  · obtain ⟨inside, behind, rfl, hinside⟩ := List.eq_append_cons_of_mem hquote
    rw [readQuoted_of_closed hinside] at hagree hex ⊢
    -- The closing quote is covered. Only in word mode do the bytes behind it count.
    by_cases hword : mode = .word
    · rw [if_pos hword] at hagree hex ⊢
      dsimp only at hagree hex ⊢
      have htail : ∀ b ∈ behind.takeWhile fun b => classes b == .other,
          (others b == .other) = true := by
        intro b hb
        rw [hagree b (by simp [hb]), beq_iff_eq]
        exact class_of_mem_takeWhile hb
      have hother := hex.head_ne_other (head?_dropWhile_stop _ _)
      rw [List.append_assoc, List.cons_append, readQuoted_of_closed hinside, if_pos hword,
        takeWhile_append_stop htail hother, dropWhile_append_stop htail hother]
    · rw [if_neg hword]
      dsimp only
      rw [List.append_assoc, List.singleton_append, readQuoted_of_closed hinside, if_neg hword]
  · rw [readQuoted_of_unclosed hquote] at hclosed ⊢
    rcases hclosed with hmem | rfl
    · exact absurd hmem hquote
    · rw [List.append_nil, readQuoted_of_unclosed hquote]

/-- An operator or a signed number is read as the same before the new
bytes. -/
theorem readOperator_exchange (hmode : mode ≠ .word)
    (hclasses : ∀ b, classes b = .delimiter ∨ classes b = mode.classes .standard b)
    (hfirst : classes first = .operator)
    (hagree : ∀ b ∈ (readOperator classes mode first rest).more, others b = classes b)
    (hex : Exchange classes others (readOperator classes mode first rest).after other)
    (hshown : (readOperator classes mode first rest).lexeme.byteClass = .digit →
      Dimmer (readOperator classes mode first rest).after other ∨
        ¬ StopsAtPin classes (readOperator classes mode first rest).after) :
    readOperator others mode first ((readOperator classes mode first rest).more ++ other)
      = ⟨(readOperator classes mode first rest).lexeme,
          (readOperator classes mode first rest).more, other⟩ := by
  cases hsigned : beginsSigned classes first rest with
  | true =>
    cases rest with
    | nil => simp [beginsSigned] at hsigned
    | cons second behind =>
      rw [readOperator_of_signed hsigned] at hagree hex hshown ⊢
      dsimp only at hagree hex hshown ⊢
      have hsigned' : beginsSigned others first
          (second :: ((readNumeral classes mode (.startSigned first second) behind).more
            ++ other)) = true := by
        simpa [beginsSigned, hagree second (by simp)] using hsigned
      rw [List.cons_append, readOperator_of_signed hsigned', readNumeral_exchange hmode hclasses _
        (fun b hb => hagree b (by simp [hb])) hex (hshown rfl)]
  | false =>
    -- With nothing pinned only operators have class operator, so one is read.
    have hsome : (Operator.ofByte? first).isSome = true := by
      rcases hclasses first with hdel | hstandard
      · rw [hdel] at hfirst
        cases hfirst
      · rw [hstandard] at hfirst
        exact ofByte?_isSome_of_classes hfirst
    obtain ⟨simple, hsimple⟩ := Option.isSome_iff_exists.mp hsome
    obtain ⟨⟨op, length⟩, hread⟩ : ∃ found,
        Operator.read? (Lexeme.operatorBytes classes first rest) = some found := by
      rw [Lexeme.operatorBytes, Operator.read?, hsimple]
      exact ⟨_, rfl⟩
    rw [readOperator_of_not_signed hsigned hread] at hagree hex ⊢
    dsimp only at hagree hex ⊢
    obtain ⟨hpos, htwo, -⟩ := Operator.read?_length hread
    obtain rfl | rfl : length = 1 ∨ length = 2 := by omega
    · -- One byte spells the operator, and the new bytes offer no second one.
      simp only [Nat.sub_self, List.take_zero, List.drop_zero, List.nil_append] at hex ⊢
      have hread' : Operator.read? (Lexeme.operatorBytes others first other) = some (op, 1) := by
        rcases hex.operatorBytes first with hone | hsame
        · rw [hone]
          exact read?_singleton hread
        · rw [hsame]
          exact hread
      rw [readOperator_of_not_signed (hex.beginsSigned hsigned) hread']
      rfl
    · -- Two bytes spell it, and both are covered.
      obtain ⟨second, behind, rfl, hsecond⟩ := eq_cons_of_read?_two hread
      have hclass : others second = .operator := by
        rw [hagree second (by simp), hsecond]
      have hsigned' : Lexeme.beginsSigned others first (second :: other) = false := by
        simp [Lexeme.beginsSigned, hclass]
      have hread' : Operator.read? (Lexeme.operatorBytes others first (second :: other))
          = some (op, 2) := by
        rw [← hread]
        simp [Lexeme.operatorBytes, hclass, hsecond]
      simp only [Nat.reduceSub, List.take_succ_cons, List.take_zero, List.cons_append,
        List.nil_append]
      rw [readOperator_of_not_signed hsigned' hread']
      rfl

/-- The lexeme at the front of some bytes is the same before the new
bytes. If it is a quoted word without its closing quote there may be
none, and if it is a number that a pinned byte has stopped they may
show no less. -/
theorem read_exchange
    (hclasses : ∀ b, classes b = .delimiter ∨ classes b = mode.classes .standard b)
    (hfirst : classes first ≠ .delimiter)
    (hagree : ∀ b ∈ first :: (read classes mode first rest).more, others b = classes b)
    (hex : Exchange classes others (read classes mode first rest).after other)
    (hshown : (read classes mode first rest).lexeme.byteClass = .digit →
      Dimmer (read classes mode first rest).after other ∨
        ¬ StopsAtPin classes (read classes mode first rest).after)
    (hclosed : isQuote first = true → first ∈ (read classes mode first rest).more ∨ other = []) :
    read others mode first ((read classes mode first rest).more ++ other)
      = ⟨(read classes mode first rest).lexeme, (read classes mode first rest).more,
          other⟩ := by
  have hsame : others first = classes first := hagree first (by simp)
  have hagree' : ∀ b ∈ (read classes mode first rest).more, others b = classes b := by
    intro b hb
    exact hagree b (List.mem_cons_of_mem _ hb)
  -- Words are read byte by byte in word mode: no byte has one of the other two classes.
  have hmode : classes first = .digit ∨ classes first = .operator → mode ≠ .word := by
    rintro hkind rfl
    rcases hclasses first with hdel | hstandard
    · exact hfirst hdel
    · rw [hstandard] at hkind
      exact classes_word_ne hkind
  cases hclass : classes first with
  | delimiter => exact absurd hclass hfirst
  | digit =>
    rw [read_of_digit hclass] at hagree' hex hshown ⊢
    rw [read_of_digit (hsame.trans hclass)]
    exact readNumeral_exchange (hmode (Or.inl hclass)) hclasses _ hagree' hex (hshown rfl)
  | operator =>
    rw [read_of_operator hclass] at hagree' hex hshown ⊢
    rw [read_of_operator (hsame.trans hclass)]
    exact readOperator_exchange (hmode (Or.inr hclass)) hclasses hclass hagree' hex hshown
  | other =>
    cases hquote : isQuote first with
    | true =>
      have hclosed' := hclosed hquote
      rw [read_of_quote hclass hquote] at hagree' hex hclosed' ⊢
      rw [read_of_quote (hsame.trans hclass) hquote]
      exact readQuoted_exchange hagree' hex hclosed'
    | false =>
      rw [read_of_word hclass hquote] at hagree' hex ⊢
      rw [read_of_word (hsame.trans hclass) hquote]
      exact readWord_exchange hagree' hex

end Readings

/-! ### The next lexeme of some bytes -/

section Cuts
variable {classes others : ClassTable} {mode : Mode} {bytes : List UInt8} {cut : Cut}

/-- The next lexeme behind some delimiters is the one that is read from
the byte behind them. -/
theorem cut?_of_read (hmode : mode ≠ .rest) {skipped : List UInt8}
    (hskipped : ∀ b ∈ skipped, classes b = .delimiter) {first : UInt8}
    (hfirst : classes first ≠ .delimiter) (rest : List UInt8) :
    cut? classes mode (skipped ++ first :: rest)
      = some { skipped, first, more := (read classes mode first rest).more,
               after := (read classes mode first rest).after,
               lexeme := (read classes mode first rest).lexeme } := by
  have hall : ∀ b ∈ skipped, (classes b == .delimiter) = true := by
    intro b hb
    rw [beq_iff_eq]
    exact hskipped b hb
  have hstop : ∀ b ∈ (first :: rest).head?, (classes b == .delimiter) = false := by
    intro b hb
    cases hb
    simpa using hfirst
  unfold cut?
  rw [if_neg hmode, dropWhile_append_stop hall hstop, takeWhile_append_stop hall hstop]

/-- The next lexeme is read from the first byte that is no delimiter. The
bytes before it are the ones that are skipped. -/
theorem read_of_cut? (hmode : mode ≠ .rest) (h : cut? classes mode bytes = some cut) :
    (∀ b ∈ cut.skipped, classes b = .delimiter) ∧ classes cut.first ≠ .delimiter ∧
      read classes mode cut.first (cut.more ++ cut.after)
        = ⟨cut.lexeme, cut.more, cut.after⟩ := by
  unfold cut? at h
  rw [if_neg hmode] at h
  split at h
  · cases h
  · next first rest hrest =>
    cases h
    have hfirst := head?_dropWhile_stop (fun b => classes b == .delimiter) bytes
    rw [hrest] at hfirst
    refine ⟨?_, by simpa using hfirst first rfl, ?_⟩
    · intro b hb
      exact class_of_mem_takeWhile hb
    · rw [read_append]

/-- The next lexeme is the same behind other delimiters and before the new
bytes. The hypotheses about closing quotes and pinned bytes are those of
`read_exchange`. -/
theorem cut?_exchange (hmode : mode ≠ .rest)
    (hclasses : ∀ b, classes b = .delimiter ∨ classes b = mode.classes .standard b)
    (h : cut? classes mode bytes = some cut) {skipped other : List UInt8}
    (hskipped : ∀ b ∈ skipped, others b = .delimiter)
    (hagree : ∀ b ∈ cut.source, others b = classes b)
    (hex : Exchange classes others cut.after other)
    (hshown : cut.lexeme.byteClass = .digit →
      Dimmer cut.after other ∨ ¬ StopsAtPin classes cut.after)
    (hclosed : isQuote cut.first = true → cut.first ∈ cut.more ∨ other = []) :
    cut? others mode (skipped ++ cut.source ++ other)
      = some { cut with skipped, after := other } := by
  obtain ⟨-, hfirst, hread⟩ := read_of_cut? hmode h
  have hfirst' : others cut.first ≠ .delimiter := by
    rw [hagree cut.first List.mem_cons_self]
    exact hfirst
  have hsame : read others mode cut.first (cut.more ++ other) = ⟨cut.lexeme, cut.more, other⟩ := by
    rw [← show (read classes mode cut.first (cut.more ++ cut.after)).more = cut.more by rw [hread]]
    rw [read_exchange hclasses hfirst (by rw [hread]; exact hagree) (by rw [hread]; exact hex)
      (by rw [hread]; exact hshown) (by rw [hread]; exact hclosed), hread]
  have hcut := cut?_of_read hmode hskipped hfirst' (cut.more ++ other)
  rw [hsame] at hcut
  simpa [Cut.source] using hcut

end Cuts

end LineLexer.Lexeme
