import LineLexer.Proofs.Exchange
import LineLexer.Scan

/-!
# `LineLexer.Proofs.Covered`: the bytes that a lexeme covers

No lexeme but a quoted word covers a delimiter, and a quoted word
covers delimiters only between its quotes.

* `ne_delimiter_of_read`: the first half.
* `delimiter_of_read`: both halves, by the place of the delimiter in
  the lexeme. No byte from behind the opening quote up to the
  delimiter is that quote again.

Both hold in every class table, pinned and widened as it may be.
-/

set_option autoImplicit false

namespace LineLexer.Lexeme

open Ascii

variable {classes : ClassTable} {mode : Mode} {first : UInt8} {rest : List UInt8}

/-- A number takes no delimiter into it, whatever it has taken before. -/
theorem ne_delimiter_of_run (reals : Bool) (n : Numeral) (bytes : List UInt8) :
    ∀ b ∈ (n.run classes reals bytes).2.1, classes b ≠ .delimiter := by
  refine Numeral.forall_taken ?_ n bytes
  intro n next b rest h hdel
  rw [Numeral.next?_delimiter hdel] at h
  cases h

/-- A word takes only bytes of class other behind its first, so it takes
no delimiter. -/
theorem ne_delimiter_of_readWord :
    ∀ b ∈ (readWord classes first rest).more, classes b ≠ .delimiter := by
  intro b hb hdel
  have hother : classes b = .other := class_of_mem_takeWhile hb
  rw [hdel] at hother
  cases hother

/-- No delimiter is behind the first byte of an operator or a signed
number. The one takes bytes of class operator, the other a digit and what
a number takes. -/
theorem ne_delimiter_of_readOperator :
    ∀ b ∈ (readOperator classes mode first rest).more, classes b ≠ .delimiter := by
  cases hsigned : beginsSigned classes first rest with
  | true =>
    cases rest with
    | nil => simp [beginsSigned] at hsigned
    | cons second behind =>
      rw [readOperator_of_signed hsigned]
      intro b hb hdel
      rcases List.mem_cons.mp hb with rfl | hb
      · simp [beginsSigned, hdel] at hsigned
      · exact ne_delimiter_of_run _ _ _ b hb hdel
  | false =>
    cases hread : Operator.read? (operatorBytes classes first rest) with
    | none =>
      rw [readOperator_of_none hsigned hread]
      exact ne_delimiter_of_readWord
    | some found =>
      obtain ⟨op, length⟩ := found
      rw [readOperator_of_not_signed hsigned hread]
      -- The operator has one more byte at most, which is of class operator.
      obtain ⟨hpos, htwo, -⟩ := Operator.read?_length hread
      obtain rfl | rfl : length = 1 ∨ length = 2 := by omega
      · intro b hb
        cases hb
      · obtain ⟨second, behind, rfl, hsecond⟩ := eq_cons_of_read?_two hread
        intro b hb hdel
        obtain rfl : b = second := by simpa using hb
        rw [hsecond] at hdel
        cases hdel

/-- The lexeme that a quote begins has the flag of quoted words. -/
theorem quoted_of_readQuoted (quote : UInt8) :
    (readQuoted classes mode quote rest).lexeme.flags.quoted = true := by
  by_cases hquote : quote ∈ rest
  · obtain ⟨inside, behind, rfl, hinside⟩ := List.eq_append_cons_of_mem hquote
    rw [readQuoted_of_closed hinside]
    split <;> rfl
  · rw [readQuoted_of_unclosed hquote]
    rfl

/-- A lexeme that has the flag of quoted words is one, with bytes between
the quotes and bytes behind them. -/
theorem exists_quoted_of_flags {lexeme : Lexeme} (h : lexeme.flags.quoted = true) :
    ∃ inside tail, lexeme = .quoted inside tail := by
  cases lexeme with
  | quoted inside tail => exact ⟨inside, tail, rfl⟩
  | _ => cases h

/-- The integer value of a word, quoted or not, is the sum of its text's
bytes. It never has a fault. -/
theorem intValue?_of_other {lexeme : Lexeme} (h : lexeme.byteClass = .other) (text : String) :
    lexeme.intValue? text = .ok (Utf8.byteSum text) := by
  cases lexeme with
  | word _ => rfl
  | quoted _ _ => rfl
  | _ => cases h

/-- A lexeme that a byte of class operator begins does not have the flag
of quoted words. -/
theorem quoted_of_readOperator :
    (readOperator classes mode first rest).lexeme.flags.quoted = false := by
  unfold readOperator
  split
  · rfl
  · split <;> rfl

/-- A lexeme with the flag of quoted words begins with a quote of class
other, and is what is read behind that quote. -/
theorem read_of_quoted (hfirst : classes first ≠ .delimiter)
    (h : (read classes mode first rest).lexeme.flags.quoted = true) :
    classes first = .other ∧ isQuote first = true ∧
      read classes mode first rest = readQuoted classes mode first rest := by
  cases hclass : classes first with
  | delimiter => exact absurd hclass hfirst
  | digit =>
    rw [read_of_digit hclass] at h
    cases h
  | operator =>
    rw [read_of_operator hclass, quoted_of_readOperator] at h
    cases h
  | other =>
    cases hquote : isQuote first with
    | true => exact ⟨rfl, rfl, read_of_quote hclass hquote⟩
    | false =>
      rw [read_of_word hclass hquote] at h
      cases h

/-- A quoted word covers delimiters only in front of its closing
quote. -/
theorem delimiter_of_readQuoted {quote b : UInt8} (hclass : classes quote ≠ .delimiter) {k : Nat}
    (hk : (readQuoted classes mode quote rest).more[k]? = some b) (hb : classes b = .delimiter) :
    ∀ j ≤ k, (readQuoted classes mode quote rest).more[j]? ≠ some quote := by
  by_cases hquote : quote ∈ rest
  · obtain ⟨inside, behind, rfl, hinside⟩ := List.eq_append_cons_of_mem hquote
    -- Behind the closing quote only word mode goes on, and it takes no delimiter.
    obtain ⟨tail, hmore, htail⟩ : ∃ tail,
        (readQuoted classes mode quote (inside ++ quote :: behind)).more = inside ++ quote :: tail ∧
          ∀ b ∈ tail, classes b ≠ .delimiter := by
      rw [readQuoted_of_closed hinside]
      split
      · refine ⟨_, rfl, fun b hb hdel => ?_⟩
        rw [class_of_mem_takeWhile hb] at hdel
        cases hdel
      · exact ⟨[], rfl, fun b hb => nomatch hb⟩
    rw [hmore] at hk ⊢
    -- Neither the closing quote nor the tail has the delimiter, so it stands before both.
    have hlt : k < inside.length := by
      by_contra hge
      rw [List.getElem?_append_right (by omega)] at hk
      rcases List.mem_cons.mp (List.mem_of_getElem? hk) with rfl | hmem
      · exact hclass hb
      · exact htail b hmem hb
    intro j hj heq
    rw [List.getElem?_append_left (by omega)] at heq
    exact hinside (List.mem_of_getElem? heq)
  · rw [readQuoted_of_unclosed hquote]
    exact fun j _ heq => hquote (List.mem_of_getElem? heq)

/-- No lexeme but a quoted word covers a delimiter: all others go on over
bytes of other classes only. -/
theorem ne_delimiter_of_read (hfirst : classes first ≠ .delimiter)
    (hquoted : (read classes mode first rest).lexeme.flags.quoted = false) :
    ∀ b ∈ first :: (read classes mode first rest).more, classes b ≠ .delimiter := by
  intro b hb
  rcases List.mem_cons.mp hb with rfl | hb
  · exact hfirst
  cases hclass : classes first with
  | delimiter => exact absurd hclass hfirst
  | digit =>
    rw [read_of_digit hclass] at hb
    exact ne_delimiter_of_run _ _ _ b hb
  | operator =>
    rw [read_of_operator hclass] at hb
    exact ne_delimiter_of_readOperator b hb
  | other =>
    cases hquote : isQuote first with
    | true =>
      rw [read_of_quote hclass hquote, quoted_of_readQuoted] at hquoted
      cases hquoted
    | false =>
      rw [read_of_word hclass hquote] at hb
      exact ne_delimiter_of_readWord b hb

/-- A delimiter that a lexeme covers lies behind its opening quote, and
no byte from there up to the delimiter is that quote again. -/
theorem delimiter_of_read (hfirst : classes first ≠ .delimiter) {k : Nat} {b : UInt8}
    (hk : (first :: (read classes mode first rest).more)[k]? = some b)
    (hb : classes b = .delimiter) :
    (read classes mode first rest).lexeme.flags.quoted = true ∧ 0 < k ∧
      ∀ j, 0 < j → j ≤ k → (first :: (read classes mode first rest).more)[j]? ≠ some first := by
  cases hquoted : (read classes mode first rest).lexeme.flags.quoted with
  | false => exact absurd hb (ne_delimiter_of_read hfirst hquoted b (List.mem_of_getElem? hk))
  | true =>
    cases k with
    | zero =>
      cases hk
      exact absurd hb hfirst
    | succ k =>
      refine ⟨rfl, by omega, fun j hpos hj => ?_⟩
      obtain ⟨i, rfl⟩ : ∃ i, j = i + 1 := ⟨j - 1, by omega⟩
      rw [List.getElem?_cons_succ] at hk ⊢
      rw [(read_of_quoted hfirst hquoted).2.2] at hk ⊢
      exact delimiter_of_readQuoted hfirst hk hb i (by omega)

end LineLexer.Lexeme
