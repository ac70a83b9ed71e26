import LineLexer.Proofs.HexReading
import LineLexer.Proofs.StepwiseReading
import LineLexer.Proofs.Whole

/-!
# `LineLexer.Proofs.StepwiseToken`: tokens, byte by byte

What a byte by byte scan makes of a lexeme when the lexeme ends: the
end of its token lies in the line, and the value of a number has a
negative. With where each draft ends, from
`LineLexer.Proofs.StepwiseReading`, that is the scan of every lexeme but
an operator.

* `finish_of_le`, `endToken_of_cut`: the end of a token, and what
  follows from it.
* `valueChecked_eq`: no negative is taken that does not exist.
* `behind`: what a scan for the lexeme of a cut should come to.
* `scanLexeme_of_extend`: a scan comes to `behind` if the draft ends where
  the cut does, with the same text and value.
* `scanLexeme_of_digit`, `scanLexeme_of_signed`, `scanLexeme_of_word`,
  `scanLexeme_of_quote`: the scans of numbers, words and quoted words come
  to `behind`.
-/

set_option autoImplicit false

namespace LineLexer

open Ascii

/-- The value of a word is the sum of the bytes of its text, and there is
nothing to report about it. -/
theorem Lexeme.Cut.scanned_of_other {cut : Lexeme.Cut} (hother : cut.lexeme.byteClass = .other)
    {mode : Mode} (hmode : mode ≠ .real) (classes : ClassTable) (fold : Bool) (start : Nat) :
    cut.scanned classes mode fold start
      = { token :=
            { text := cut.lexeme.text fold
              span := ⟨start, start + cut.source.length⟩
              rawText := Utf8.decode cut.source
              byteClass := .other
              delimiter := cut.after.head?.getD 0
              delimiterClass := (cut.after.head?.map classes).getD .delimiter
              intValue := Utf8.byteSum (cut.lexeme.text fold)
              realValue := none
              flags := cut.lexeme.flags }
          diagnostics := [] } := by
  cases mode with
  | real => exact absurd rfl hmode
  | _ =>
    rw [Cut.scanned, hother]
    cases hlexeme : cut.lexeme with
    | word => rfl
    | quoted => rfl
    | operator => rw [hlexeme] at hother; cases hother
    | numeral => rw [hlexeme] at hother; cases hother

namespace Cursor

/-! ### Tokens of a cut -/

section Finish
variable {cursor rested : Cursor} {classes : ClassTable} {mode : Mode} {cut : Lexeme.Cut}

/-- The lexeme of a cut ends in the line of the cursor that it is cut
for. -/
theorem stop_le_of_cut (h : Lexeme.cut? classes mode cursor.remaining = some cut) :
    cursor.position + cut.skipped.length + cut.source.length ≤ cursor.line.length := by
  have hparts := congrArg List.length (Lexeme.Cut.bytes_of_cut? h)
  have hsource : 0 < cut.source.length := by simp [Lexeme.Cut.source]
  simp only [List.length_append, length_remaining] at hparts
  omega

/-- Finishing a token at a position of the line behind its start does not
break off. -/
theorem finish_of_le (rested : Cursor) (token : Token) (stop : Nat)
    (hstart : token.span.start ≤ stop) (hstop : stop ≤ rested.line.length) :
    rested.finish token stop = .ok (rested.endToken token stop) := by
  rw [finish, cutOut, if_pos ⟨hstart, hstop⟩]
  rfl

/-- A token that begins with the lexeme of a cut, ended where the lexeme
ends, covers the bytes of the cut. Its delimiter is the byte behind
them. -/
theorem endToken_of_cut (rested : Cursor) (token : Token)
    (h : Lexeme.cut? classes mode cursor.remaining = some cut)
    (hline : rested.line = cursor.line)
    (hstart : token.span.start = cursor.position + cut.skipped.length) :
    rested.endToken token (cursor.position + cut.skipped.length + cut.source.length)
      = { token with
          span := ⟨cursor.position + cut.skipped.length,
            cursor.position + cut.skipped.length + cut.source.length⟩
          rawText := Utf8.decode cut.source
          delimiter := cut.after.head?.getD 0
          delimiterClass := (cut.after.head?.map rested.classes).getD .delimiter } := by
  have hleft : cursor.line.bytes.drop cursor.position = cursor.remaining := rfl
  have hslice := Lexeme.Cut.slice_line h hleft false
  have hdrop := Lexeme.Cut.drop_line h hleft
  have hhead : rested.line.bytes[cursor.position + cut.skipped.length + cut.source.length]?
      = cut.after.head? := by
    rw [hline, ← hdrop, List.head?_drop]
  have hraw : (Span.mk token.span.start (cursor.position + cut.skipped.length
      + cut.source.length)).slice rested.line.bytes = cut.source := by
    rw [hline, hstart]
    exact hslice
  rw [endToken, hhead, hraw, hstart]

end Finish

/-! ### Values -/

/-- No negation breaks off when the value of a number is found: a
magnitude that is negated has been checked to be in range. -/
theorem valueChecked_eq {n : Numeral} (h : n.Unsigned) (fold : Bool) :
    n.valueChecked (Utf8.decode (folded fold n.text))
      = .ok (n.value? (Utf8.decode (folded fold n.text))) := by
  unfold Numeral.valueChecked
  cases hhex : n.hex with
  | false => simp
  | true =>
    rw [Numeral.value?, hhex, if_pos rfl, if_pos rfl]
    cases hread : Numeral.readHex (Utf8.decode (folded fold n.text)) with
    | error fault => rfl
    | ok value =>
      have hnonneg := Numeral.readHex_nonneg h fold hread
      have hleast : value ≠ minInteger := by
        rintro rfl
        exact absurd hnonneg (by decide)
      cases hnegative : n.negative with
      | false => rfl
      | true =>
        dsimp only
        rw [if_pos rfl, negated, if_neg hleast]
        rfl

/-- If no part of a scan breaks off, the scan returns the token with its
value, and the cursor that setting the value leaves. The start of the scan
is remembered there. -/
theorem scanLexeme_of_draft {cursor begun rested final : Cursor} {reals fold : Bool}
    {first : UInt8} {c : ByteClass} {draft last : Draft} {start stop : Nat}
    {token valued : Token}
    (hfirst : cursor.readFirst = (some (first, c), begun))
    (hstart : begun.unread = .ok { begun with position := start })
    (hbegin : Draft.begin c first = .ok draft)
    (hextend : extend reals draft begun = .ok (last, stop, rested))
    (hfinish : rested.finish (last.token fold start) stop = .ok token)
    (hvalue : rested.setIntValue last token = .ok (valued, final)) :
    cursor.scanLexeme reals fold
      = .ok (some valued, { final with lastStart := some cursor.position }) := by
  unfold scanLexeme
  rw [hfirst]
  simp only [hstart, hbegin, hextend, hfinish, hvalue, bind, Except.bind]
  rfl

/-- What a scan for the lexeme of a cut should come to: the token of the
cut, and the cursor behind it with what is reported. -/
def behind (cursor : Cursor) (cut : Lexeme.Cut) (fold : Bool) : Option Token × Cursor :=
  let scanned := cut.scanned cursor.classes .plain fold (cursor.position + cut.skipped.length)
  (some scanned.token,
    { cursor with
      position := cursor.position + cut.width cursor.classes
      lastStart := some cursor.position
      diagnostics := cursor.diagnostics ++ scanned.diagnostics })

section Lexemes
variable {cursor : Cursor} {mode : Mode} {cut : Lexeme.Cut} {reals : Bool}

/-- The first byte that is read is the first of the cut, and behind it the
line goes on with the rest of the cut and what follows. -/
theorem readFirst_of_cut (hmode : mode ≠ .rest)
    (h : Lexeme.cut? cursor.classes mode cursor.remaining = some cut) :
    cursor.readFirst
        = (some (cut.first, cursor.classes cut.first),
            cursor.advance (cut.skipped.length + 1)) ∧
      (cursor.advance (cut.skipped.length + 1)).remaining = cut.more ++ cut.after := by
  obtain ⟨hskipped, hfirst, -⟩ := Lexeme.read_of_cut? hmode h
  have hbytes : cursor.remaining = cut.skipped ++ cut.first :: (cut.more ++ cut.after) := by
    rw [← Lexeme.Cut.bytes_of_cut? h]
    simp [Lexeme.Cut.source]
  refine ⟨readFirst_of_append hbytes hskipped hfirst, ?_⟩
  rw [remaining_advance, hbytes, ← List.singleton_append, ← List.append_assoc]
  exact List.drop_left' (by simp)

/-- If a lexeme ends where the cut does, with its text, class, flags and
value, its scan does not break off and comes to what `Cursor.behind`
says. -/
theorem scanLexeme_of_extend (hmode : mode ≠ .rest)
    (h : Lexeme.cut? cursor.classes mode cursor.remaining = some cut) {fold : Bool}
    {draft : Draft} (last : Draft)
    (hbegin : Draft.begin (cursor.classes cut.first) cut.first = .ok draft)
    (hextend : extend reals draft (cursor.advance (cut.skipped.length + 1))
      = .ok (last, cursor.position + cut.skipped.length + cut.source.length,
          cursor.advance (cut.width cursor.classes)))
    (htext : Utf8.decode (folded fold last.bytes) = cut.lexeme.text fold)
    (hclass : last.byteClass = cut.lexeme.byteClass) (hflags : last.flags = cut.lexeme.flags)
    (hvalue : ∀ token : Token, token.text = cut.lexeme.text fold →
      (cursor.advance (cut.width cursor.classes)).setIntValue last token
        = .ok ({ token with
              intValue := recovered 0 (cut.lexeme.intValue? (cut.lexeme.text fold)) },
            (cursor.advance (cut.width cursor.classes)).report token
              (faultOf (cut.lexeme.intValue? (cut.lexeme.text fold))))) :
    cursor.scanLexeme reals fold = .ok (cursor.behind cut fold) := by
  obtain ⟨hfirst, -⟩ := readFirst_of_cut hmode h
  have hfinish := finish_of_le (cursor.advance (cut.width cursor.classes))
    (last.token fold (cursor.position + cut.skipped.length))
    (cursor.position + cut.skipped.length + cut.source.length) (Nat.le_add_right ..)
    (stop_le_of_cut h)
  rw [endToken_of_cut (cursor.advance (cut.width cursor.classes)) _ h rfl rfl] at hfinish
  have hfolds : Mode.plain.folds fold = fold := rfl
  refine (scanLexeme_of_draft hfirst (unread_advance ..) hbegin hextend hfinish
    (hvalue _ htext)).trans ?_
  simp [behind, Lexeme.Cut.scanned, Draft.token, htext, hclass, hflags, report, advance,
    Lexeme.realValue?, hfolds]

/-- If a number ends where the cut does, its scan does not break off and
comes to what `Cursor.behind` says. -/
theorem scanLexeme_of_numeral (hmode : mode ≠ .rest)
    (h : Lexeme.cut? cursor.classes mode cursor.remaining = some cut) {fold : Bool}
    {draft : Draft} {n : Numeral} (hlexeme : cut.lexeme = .numeral n) (hn : n.Unsigned)
    (hbegin : Draft.begin (cursor.classes cut.first) cut.first = .ok draft)
    (hextend : extend reals draft (cursor.advance (cut.skipped.length + 1))
      = .ok (.numeral n, cursor.position + cut.skipped.length + cut.source.length,
          cursor.advance (cut.width cursor.classes))) :
    cursor.scanLexeme reals fold = .ok (cursor.behind cut fold) := by
  refine scanLexeme_of_extend hmode h (.numeral n) hbegin hextend (by rw [hlexeme]; rfl)
    (by rw [hlexeme]; rfl) (by rw [hlexeme]; rfl) fun token htext => ?_
  rw [hlexeme] at htext ⊢
  rw [setIntValue, htext]
  simp only [Lexeme.text, valueChecked_eq hn, bind, Except.bind]
  rfl

/-- The scan of a number or a word goes to the end of the lexeme, and over
a delimiter behind it. -/
theorem width_of_passes (classes : ClassTable) (h : cut.lexeme.passesDelimiter = true) :
    cut.width classes
      = cut.skipped.length + 1 + (cut.more.length + passed classes cut.after) := by
  simp only [Lexeme.Cut.width, h, Bool.true_and, Lexeme.Cut.source, List.length_cons, passed]
  omega

/-- The scan of an operator, or of a quoted word without a tail, goes to
the end of the lexeme. -/
theorem width_of_not_passes (classes : ClassTable) (h : cut.lexeme.passesDelimiter = false) :
    cut.width classes = cut.skipped.length + 1 + cut.more.length := by
  simp only [Lexeme.Cut.width, h, Bool.false_and, Lexeme.Cut.source, List.length_cons,
    Bool.false_eq_true, if_false]
  omega

/-- The end of a lexeme, counted from behind its first byte. -/
theorem stop_eq (cursor : Cursor) (cut : Lexeme.Cut) :
    cursor.position + cut.skipped.length + cut.source.length
      = (cursor.advance (cut.skipped.length + 1)).position + cut.more.length := by
  simp only [Lexeme.Cut.source, List.length_cons, position_advance]
  omega

/-- The scan byte by byte of a number that begins with a digit does not
break off, and comes to what `Cursor.behind` says. -/
theorem scanLexeme_of_digit (hmode : mode ≠ .rest)
    (h : Lexeme.cut? cursor.classes mode cursor.remaining = some cut)
    (hclass : cursor.classes cut.first = .digit) (fold : Bool) :
    cursor.scanLexeme (mode == .real) fold = .ok (cursor.behind cut fold) := by
  obtain ⟨-, hleft⟩ := readFirst_of_cut hmode h
  obtain ⟨-, -, hread⟩ := Lexeme.read_of_cut? hmode h
  rw [Lexeme.read_of_digit hclass] at hread
  obtain ⟨hlexeme, hmore, hafter⟩ := (Lexeme.Reading.mk.injEq ..).mp hread
  refine scanLexeme_of_numeral hmode h hlexeme.symm
    (Numeral.unsigned_run (Numeral.unsigned_start _) ..) (by rw [hclass]; rfl) ?_
  rw [extend_numeral, hleft, classes_advance, hmore, hafter, stop_eq,
    width_of_passes _ (by rw [← hlexeme]; rfl), advance_advance]

/-- The scan byte by byte of a number that begins with a sign does not
break off, and comes to what `Cursor.behind` says. -/
theorem scanLexeme_of_signed (hmode : mode ≠ .rest)
    (h : Lexeme.cut? cursor.classes mode cursor.remaining = some cut)
    (hclass : cursor.classes cut.first = .operator)
    (hsigned : Lexeme.beginsSigned cursor.classes cut.first (cut.more ++ cut.after) = true)
    (fold : Bool) :
    cursor.scanLexeme (mode == .real) fold = .ok (cursor.behind cut fold) := by
  obtain ⟨-, hleft⟩ := readFirst_of_cut hmode h
  obtain ⟨-, -, hread⟩ := Lexeme.read_of_cut? hmode h
  rw [Lexeme.read_of_operator hclass] at hread
  generalize hrest : cut.more ++ cut.after = rest at hsigned hleft hread
  cases rest with
  | nil => simp [Lexeme.beginsSigned] at hsigned
  | cons second behind =>
    rw [Lexeme.readOperator_of_signed hsigned] at hread
    obtain ⟨hlexeme, hmore, hafter⟩ := (Lexeme.Reading.mk.injEq ..).mp hread
    simp only [Lexeme.beginsSigned, List.head?_cons, Option.any_some, Bool.and_eq_true,
      beq_iff_eq] at hsigned
    obtain ⟨hsign, hdigit, hunderscore⟩ := hsigned
    refine scanLexeme_of_numeral hmode h hlexeme.symm
      (Numeral.unsigned_run (Numeral.unsigned_startSigned ..) ..) (by rw [hclass]; rfl) ?_
    -- The draft begins as an operator and becomes a number with its second byte.
    have htake : (Draft.operator [cut.first]).take (mode == .real)
        ((cursor.advance (cut.skipped.length + 1)).advance 1) second
        ((cursor.advance (cut.skipped.length + 1)).classes second)
          = .ok (.more (.numeral (.startSigned cut.first second))) := by
      rw [classes_advance, hdigit, Draft.take.eq_def]
      simp [hsign, hunderscore]
    have hbehind : ((cursor.advance (cut.skipped.length + 1)).advance 1).remaining = behind := by
      rw [remaining_advance, hleft, List.drop_one, List.tail_cons]
    have hlength : cut.more.length
        = 1 + (Lexeme.readNumeral cursor.classes mode (.startSigned cut.first second)
            behind).more.length := by
      rw [← hmore, List.length_cons, Nat.add_comm]
    rw [extend_of_more hleft htake, extend_numeral, hbehind, stop_eq,
      width_of_passes _ (by rw [← hlexeme]; rfl), hlength, ← hafter]
    simp only [Lexeme.readNumeral, classes_advance, advance_advance, position_advance,
      Nat.add_assoc]

/-- The scan byte by byte of a word without quotes does not break off, and
comes to what `Cursor.behind` says. -/
theorem scanLexeme_of_word (hmode : mode ≠ .rest)
    (h : Lexeme.cut? cursor.classes mode cursor.remaining = some cut)
    (hclass : cursor.classes cut.first = .other) (hquote : isQuote cut.first = false)
    (fold : Bool) :
    cursor.scanLexeme reals fold = .ok (cursor.behind cut fold) := by
  obtain ⟨-, hleft⟩ := readFirst_of_cut hmode h
  obtain ⟨-, -, hread⟩ := Lexeme.read_of_cut? hmode h
  rw [Lexeme.read_of_word hclass hquote] at hread
  obtain ⟨hlexeme, hmore, hafter⟩ := (Lexeme.Reading.mk.injEq ..).mp hread
  have hbegin : Draft.begin (cursor.classes cut.first) cut.first = .ok (.word [cut.first]) := by
    rw [hclass, Draft.begin, hquote]
    rfl
  refine scanLexeme_of_extend hmode h (.word (cut.first :: cut.more)) hbegin ?_
    (by rw [← hlexeme, hmore]; rfl) (by rw [← hlexeme]; rfl) (by rw [← hlexeme]; rfl) ?_
  · rw [extend_word, hleft, classes_advance, hmore, hafter, stop_eq,
      width_of_passes _ (by rw [← hlexeme]; rfl), advance_advance]
    rfl
  · intro token htext
    rw [setIntValue, htext, ← hlexeme]
    simp [Lexeme.intValue?, recovered, faultOf, report, advance]

/-- A cut at a quote is a quoted word without a tail, outside word mode.
Extending it from the quote on ends where the cut does. -/
theorem extend_of_quote (reals : Bool) (hmode : mode ≠ .rest) (hword : mode ≠ .word)
    (h : Lexeme.cut? cursor.classes mode cursor.remaining = some cut)
    (hclass : cursor.classes cut.first = .other) (hquote : isQuote cut.first = true) :
    ∃ inside, cut.lexeme = .quoted inside [] ∧
      extend reals (.quoted cut.first []) (cursor.advance (cut.skipped.length + 1))
        = .ok (.quoted cut.first inside,
            (cursor.advance (cut.skipped.length + 1)).position + cut.more.length,
            (cursor.advance (cut.skipped.length + 1)).advance cut.more.length) := by
  obtain ⟨-, hleft⟩ := readFirst_of_cut hmode h
  obtain ⟨-, -, hread⟩ := Lexeme.read_of_cut? hmode h
  rw [Lexeme.read_of_quote hclass hquote] at hread
  by_cases hclosed : cut.first ∈ cut.more ++ cut.after
  · obtain ⟨inside, behind, hbytes, hinside⟩ := List.eq_append_cons_of_mem hclosed
    rw [hbytes, Lexeme.readQuoted_of_closed hinside, if_neg hword] at hread
    obtain ⟨hlexeme, hmore, -⟩ := (Lexeme.Reading.mk.injEq ..).mp hread
    refine ⟨inside, hlexeme.symm, ?_⟩
    rw [extend_quoted_of_closed reals [] _ (hleft.trans hbytes) hinside, ← hmore]
    simp
  · rw [Lexeme.readQuoted_of_unclosed hclosed] at hread
    obtain ⟨hlexeme, hmore, hafter⟩ := (Lexeme.Reading.mk.injEq ..).mp hread
    refine ⟨cut.more ++ cut.after, hlexeme.symm, ?_⟩
    rw [← hleft] at hclosed
    rw [extend_quoted_of_unclosed reals [] _ hclosed, hleft, ← hafter, List.append_nil]
    rfl

/-- The scan byte by byte of a quoted word does not break off and comes to
what `Cursor.behind` says, outside word mode. What stands behind the
closing quote is left. -/
theorem scanLexeme_of_quote (hmode : mode ≠ .rest) (hword : mode ≠ .word)
    (h : Lexeme.cut? cursor.classes mode cursor.remaining = some cut)
    (hclass : cursor.classes cut.first = .other) (hquote : isQuote cut.first = true)
    (fold : Bool) :
    cursor.scanLexeme reals fold = .ok (cursor.behind cut fold) := by
  obtain ⟨inside, hlexeme, hextend⟩ := extend_of_quote reals hmode hword h hclass hquote
  have hbegin : Draft.begin (cursor.classes cut.first) cut.first
      = .ok (.quoted cut.first []) := by
    rw [hclass, Draft.begin, hquote]
    rfl
  refine scanLexeme_of_extend hmode h (.quoted cut.first inside) hbegin
    (by rw [hextend, stop_eq, width_of_not_passes _ (by rw [hlexeme]; rfl), advance_advance])
    (by rw [hlexeme]; simp [Draft.bytes, Lexeme.text, folded, upper, Utf8.decode])
    (by rw [hlexeme]; rfl) (by rw [hlexeme]; rfl) ?_
  intro token htext
  rw [setIntValue, htext, hlexeme]
  simp [Lexeme.intValue?, recovered, faultOf, report, advance]

end Lexemes

end Cursor

end LineLexer
