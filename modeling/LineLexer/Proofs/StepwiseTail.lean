import LineLexer.Proofs.Covered
import LineLexer.Proofs.StepwiseOperator

/-!
# `LineLexer.Proofs.StepwiseTail`: quoted words with a tail

In word mode a quoted word goes on through the bytes of class other
right behind its closing quote. The byte by byte scanner ends the
lexeme at the quote as in plain mode, and then takes the tail and ends
the token a second time.

* `cut?_word`: what word mode cuts is what plain mode cuts, with the
  tail of a quoted word (`Cut.withTail`).
* `addTail_of_cut`: adding the tail to the token of the one gives the
  token of the other, and does not break off.
-/

set_option autoImplicit false

namespace LineLexer

open Ascii

namespace Lexeme

/-! ### What stands right behind a closing quote -/

/-- The bytes of class other that stand right behind the lexeme of a
cut. -/
def Cut.tail (cut : Cut) (classes : ClassTable) : List UInt8 :=
  cut.after.takeWhile fun b => classes b == .other

/-- The cut in which a quoted word has the bytes of class other behind it
as its tail. A cut of any other lexeme stays as it is. -/
def Cut.withTail (cut : Cut) (classes : ClassTable) : Cut :=
  match cut.lexeme with
  | .quoted inside _ =>
    { cut with
      more := cut.more ++ cut.tail classes
      after := cut.after.dropWhile fun b => classes b == .other
      lexeme := .quoted inside (cut.tail classes) }
  | _ => cut

section Tail
variable {classes : ClassTable} {bytes : List UInt8} {cut : Cut}

/-- Giving a quoted word its tail does not change what the cut passed over
before the lexeme. -/
theorem Cut.skipped_withTail (cut : Cut) (classes : ClassTable) :
    (cut.withTail classes).skipped = cut.skipped := by
  rw [withTail]
  split <;> rfl

section Quoted
variable (classes) {inside tail : List UInt8} (hlexeme : cut.lexeme = .quoted inside tail)
include hlexeme

/-- With its tail, a quoted word has as its tail the bytes of class other
that stand behind it. -/
theorem Cut.lexeme_withTail :
    (cut.withTail classes).lexeme = .quoted inside (cut.tail classes) := by
  rw [withTail, hlexeme]

/-- With its tail, a quoted word covers its own bytes and those of the
tail. -/
theorem Cut.source_withTail :
    (cut.withTail classes).source = cut.source ++ cut.tail classes := by
  rw [withTail, hlexeme]
  rfl

/-- With its tail, a quoted word has behind it what stood behind the
tail. -/
theorem Cut.after_withTail :
    (cut.withTail classes).after = cut.after.drop (cut.tail classes).length := by
  rw [withTail, hlexeme]
  conv_rhs => rw [← List.takeWhile_append_dropWhile (p := fun b => classes b == .other)
    (l := cut.after)]
  exact List.drop_left.symm

end Quoted

/-- A quoted word with nothing of class other behind it is cut the same
way with its tail as without. -/
theorem Cut.withTail_of_nil {inside : List UInt8} (hlexeme : cut.lexeme = .quoted inside [])
    (htail : cut.tail classes = []) : cut.withTail classes = cut := by
  have hafter := Cut.after_withTail classes hlexeme
  rw [withTail, hlexeme] at hafter ⊢
  simp only [htail, List.length_nil, List.drop_zero] at hafter
  simp only [htail, hafter, List.append_nil, ← hlexeme]

/-- The reading of a quoted word outside word mode has no tail, and in
word mode has the tail that stands behind it. -/
theorem readQuoted_word (classes : ClassTable) (first : UInt8) (rest : List UInt8)
    (skipped : List UInt8) :
    let plain := readQuoted classes .plain first rest
    let word := readQuoted classes .word first rest
    (∃ inside, plain.lexeme = .quoted inside []) ∧
      (⟨skipped, first, word.more, word.after, word.lexeme⟩ : Cut)
        = (⟨skipped, first, plain.more, plain.after, plain.lexeme⟩ : Cut).withTail classes := by
  by_cases hquote : first ∈ rest
  · obtain ⟨inside, behind, rfl, hinside⟩ := List.eq_append_cons_of_mem hquote
    rw [readQuoted_of_closed hinside, readQuoted_of_closed hinside]
    exact ⟨⟨inside, rfl⟩, by simp [Cut.withTail, Cut.tail]⟩
  · rw [readQuoted_of_unclosed hquote, readQuoted_of_unclosed hquote]
    exact ⟨⟨rest, rfl⟩, by simp [Cut.withTail, Cut.tail]⟩

/-- In word mode a quoted word is cut with its tail. Every other lexeme is
cut as in plain mode. -/
theorem cut?_word (classes : ClassTable) (bytes : List UInt8) :
    cut? classes .word bytes = (cut? classes .plain bytes).map fun cut => cut.withTail classes := by
  unfold cut?
  rw [if_neg (by decide), if_neg (by decide)]
  cases hbytes : bytes.dropWhile fun b => classes b == .delimiter with
  | nil => rfl
  | cons first rest =>
    have hfirst := head?_dropWhile_stop (fun b => classes b == .delimiter) bytes
    rw [hbytes] at hfirst
    -- Only at a quote does the reading ask for the mode.
    refine congrArg some ?_
    cases hclass : classes first with
    | delimiter => simp [hclass] at hfirst
    | digit =>
      simp only [read_of_digit hclass]
      rfl
    | operator =>
      simp only [read_of_operator hclass]
      unfold readOperator
      split
      · rfl
      · split <;> rfl
    | other =>
      cases hquote : isQuote first with
      | true =>
        simp only [read_of_quote hclass hquote]
        exact (readQuoted_word ..).2
      | false =>
        simp only [read_of_word hclass hquote]
        rfl

/-- Outside word mode no quoted word has a tail. -/
theorem tail_of_cut? (h : cut? classes .plain bytes = some cut) {inside tail : List UInt8}
    (hlexeme : cut.lexeme = .quoted inside tail) : tail = [] := by
  obtain ⟨-, hfirst, hread⟩ := read_of_cut? (by decide) h
  have hquoted : (read classes .plain cut.first (cut.more ++ cut.after)).lexeme.flags.quoted
      = true := by
    rw [hread, hlexeme]
    rfl
  rw [(read_of_quoted hfirst hquoted).2.2] at hread
  obtain ⟨⟨inside', hinside⟩, -⟩ :=
    readQuoted_word classes cut.first (cut.more ++ cut.after) cut.skipped
  rw [hread, hlexeme] at hinside
  exact (Lexeme.quoted.inj hinside).2

end Tail

end Lexeme

namespace Cursor

section Word
variable {cursor : Cursor} {cut : Lexeme.Cut}

/-- Reading the bytes of class other takes them up to the first of another
class, and the cursor rests behind them. -/
theorem readOthers_eq (cursor : Cursor) :
    cursor.readOthers
      = (cursor.remaining.takeWhile fun b => cursor.classes b == .other,
          cursor.advance
            (cursor.remaining.takeWhile fun b => cursor.classes b == .other).length) := by
  generalize hleft : cursor.remaining = left
  induction left generalizing cursor with
  | nil =>
    have hpeek : cursor.peek = none := by rw [peek_eq, hleft]; rfl
    rw [readOthers]
    split
    · next heq => rw [hpeek] at heq; cases heq
    · rfl
  | cons b rest ih =>
    have hpeek : cursor.peek = some (b, cursor.classes b) := by rw [peek_eq, hleft]; rfl
    have hrest : (cursor.advance 1).remaining = rest := by simp [hleft]
    rw [readOthers]
    split
    · next c heq =>
      rw [hpeek, Option.some.injEq, Prod.mk.injEq] at heq
      obtain ⟨rfl, hb⟩ := heq
      rw [consume_of_cons hleft, ih _ hrest]
      simp [hb, Nat.add_comm]
    · next hother =>
      have hb : cursor.classes b ≠ .other := fun hb => hother b (by rw [hpeek, hb])
      simp [hb]

/-- A token that is not quoted gets no tail. -/
theorem addTail_of_not_quoted {token : Token} (h : token.flags.quoted = false) (fold : Bool) :
    cursor.addTail token fold = .ok (token, cursor) := by
  rw [addTail, h]
  exact if_neg fun hquoted => absurd hquoted.1 (by decide)

/-- A quoted token with no byte of class other right behind it gets no
tail. -/
theorem addTail_of_nil {token : Token}
    (htail : (cursor.remaining.takeWhile fun b => cursor.classes b == .other) = [])
    (fold : Bool) : cursor.addTail token fold = .ok (token, cursor) := by
  rw [addTail, readOthers_eq, htail]
  split <;> rfl

/-- A quoted token gets the bytes of class other right behind it as its
tail. The tail is added to its text and to its value, and a delimiter
behind the tail is passed over. -/
theorem addTail_of_tail {token : Token} (tail : List UInt8) {fold : Bool}
    (hquoted : token.flags.quoted = true) (hstop : token.span.stop = cursor.position)
    (hstart : token.span.start ≤ cursor.position + tail.length)
    (htail : (cursor.remaining.takeWhile fun b => cursor.classes b == .other) = tail)
    (hne : tail ≠ []) :
    cursor.addTail token fold
      = .ok (cursor.endToken
            { token with
              text := token.text ++ Utf8.decode (folded fold tail)
              intValue := Utf8.byteSum (token.text ++ Utf8.decode (folded fold tail)) }
            (cursor.position + tail.length),
          cursor.advance (tail.length
            + passed cursor.classes (cursor.remaining.drop tail.length))) := by
  have hroom : cursor.position + tail.length ≤ cursor.line.length := by
    have hlength := (List.takeWhile_sublist (p := fun b => cursor.classes b == .other)
      (l := cursor.remaining)).length_le
    have hpos := List.length_pos_iff.mpr hne
    rw [htail, length_remaining] at hlength
    omega
  have hfinish := finish_of_le (cursor.advance tail.length)
    { token with
      text := token.text ++ Utf8.decode (folded fold tail)
      intValue := Utf8.byteSum (token.text ++ Utf8.decode (folded fold tail)) }
    (cursor.position + tail.length) hstart hroom
  rw [addTail, if_pos ⟨hquoted, hstop⟩, readOthers_eq, htail]
  cases tail with
  | nil => exact absurd rfl hne
  | cons b more =>
    simp only [position_advance, hfinish, bind, Except.bind]
    have hbehind : (cursor.advance (b :: more).length).remaining
        = cursor.remaining.drop (b :: more).length := remaining_advance ..
    rw [← hbehind]
    -- Whether the byte behind the tail is a delimiter.
    cases hleft : (cursor.advance (b :: more).length).remaining with
    | nil =>
      rw [peek_eq, hleft]
      rfl
    | cons c behind =>
      rw [peek_eq, hleft, consume_of_cons hleft]
      cases hc : cursor.classes c <;> simp [hc, passed] <;> rfl

section Quoted
variable {inside : List UInt8} (hlexeme : cut.lexeme = .quoted inside [])
include hlexeme

/-- A scan of a quoted word without a tail stops at its closing quote,
whatever stands behind. -/
theorem width_of_quoted (classes : ClassTable) :
    cut.width classes = cut.skipped.length + cut.source.length := by
  simp [Lexeme.Cut.width, hlexeme, Lexeme.passesDelimiter]

/-- A scan of a quoted word with a tail goes on over the tail, and over a
delimiter behind it. -/
theorem width_withTail {classes : ClassTable} (htail : cut.tail classes ≠ []) :
    (cut.withTail classes).width classes
      = cut.width classes
        + ((cut.tail classes).length + passed classes (cut.withTail classes).after) := by
  have hpasses : (cut.withTail classes).lexeme.passesDelimiter = true := by
    simp [Lexeme.Cut.lexeme_withTail classes hlexeme, Lexeme.passesDelimiter, htail]
  have hlength := congrArg List.length (Lexeme.Cut.source_withTail classes hlexeme)
  rw [width_of_passes _ hpasses, width_of_quoted hlexeme, Lexeme.Cut.skipped_withTail]
  simp only [Lexeme.Cut.source, List.length_cons, List.length_append] at hlength ⊢
  omega

/-- What the cursor has left of the line behind a quoted word is what
stands behind the cut. -/
theorem remaining_behind (h : Lexeme.cut? cursor.classes .plain cursor.remaining = some cut)
    (fold : Bool) : (cursor.behind cut fold).2.remaining = cut.after := by
  have hline : cursor.line.bytes.drop cursor.position = cursor.remaining := rfl
  rw [← Lexeme.Cut.drop_line h hline, Nat.add_assoc, ← width_of_quoted hlexeme cursor.classes]
  rfl

/-- Ending the token of a quoted word behind its tail, with the tail in
its text and its value, makes the token of the cut with the tail. -/
theorem endToken_withTail (h : Lexeme.cut? cursor.classes .plain cursor.remaining = some cut)
    (fold : Bool) :
    let token :=
      (cut.scanned cursor.classes .plain fold (cursor.position + cut.skipped.length)).token
    let text := token.text ++ Utf8.decode (folded fold (cut.tail cursor.classes))
    (cursor.behind cut fold).2.endToken { token with text, intValue := Utf8.byteSum text }
        ((cursor.behind cut fold).2.position + (cut.tail cursor.classes).length)
      = ((cut.withTail cursor.classes).scanned cursor.classes .word fold
          (cursor.position + cut.skipped.length)).token := by
  intro token text
  have hlonger : Lexeme.cut? cursor.classes .word cursor.remaining
      = some (cut.withTail cursor.classes) := by
    rw [Lexeme.cut?_word, h]
    rfl
  -- A quoted word passes over no delimiter, so the cursor is at the tail's first byte.
  have hstop : (cursor.behind cut fold).2.position + (cut.tail cursor.classes).length
      = cursor.position + (cut.withTail cursor.classes).skipped.length
        + (cut.withTail cursor.classes).source.length := by
    show cursor.position + cut.width cursor.classes + (cut.tail cursor.classes).length = _
    rw [width_of_quoted hlexeme, Lexeme.Cut.skipped_withTail,
      Lexeme.Cut.source_withTail _ hlexeme, List.length_append]
    omega
  have hempty : Utf8.decode (folded fold []) = "" := by
    simp [folded, upper, Utf8.decode]
  rw [hstop, endToken_of_cut (cursor.behind cut fold).2 _ hlonger rfl
    (by rw [Lexeme.Cut.skipped_withTail]; rfl)]
  simp [token, text, behind, Lexeme.Cut.scanned_of_other,
    Lexeme.Cut.lexeme_withTail cursor.classes hlexeme, Lexeme.Cut.skipped_withTail, hlexeme,
    Lexeme.byteClass, Lexeme.text, Lexeme.flags, hempty]

/-- Adding the tail to the token of a quoted word that has one does not
break off. It makes the token of the cut with the tail and moves the
cursor behind it. -/
theorem addTail_of_quoted (h : Lexeme.cut? cursor.classes .plain cursor.remaining = some cut)
    (fold : Bool) (htail : cut.tail cursor.classes ≠ []) :
    (cursor.behind cut fold).2.addTail
        (cut.scanned cursor.classes .plain fold (cursor.position + cut.skipped.length)).token fold
      = .ok (((cut.withTail cursor.classes).scanned cursor.classes .word fold
            (cursor.position + cut.skipped.length)).token,
          (cursor.behind (cut.withTail cursor.classes) fold).2) := by
  have hleft := remaining_behind hlexeme h fold
  have hwidth := width_of_quoted hlexeme cursor.classes
  have hquoted : (cut.scanned cursor.classes .plain fold
      (cursor.position + cut.skipped.length)).token.flags.quoted = true := by
    show cut.lexeme.flags.quoted = true
    rw [hlexeme]
    rfl
  have hstop : cursor.position + cut.skipped.length + cut.source.length
      = (cursor.behind cut fold).2.position := by
    show _ = cursor.position + cut.width cursor.classes
    rw [hwidth, Nat.add_assoc]
  have hstart : cursor.position + cut.skipped.length
      ≤ (cursor.behind cut fold).2.position + (cut.tail cursor.classes).length := by
    rw [← hstop]
    omega
  rw [addTail_of_tail (cut.tail cursor.classes) hquoted hstop hstart (by rw [hleft]; rfl) htail,
    hleft, endToken_withTail hlexeme h, ← Lexeme.Cut.after_withTail _ hlexeme]
  have hlex := Lexeme.Cut.lexeme_withTail cursor.classes hlexeme
  simp [behind, Lexeme.Cut.scanned_of_other, hlex, hlexeme, Lexeme.byteClass,
    width_withTail hlexeme htail, advance, Nat.add_assoc]

end Quoted

/-- Adding a tail to the token that plain mode cuts does not break off. It
makes the token and the cursor of the cut with the tail, which is the cut
of word mode. -/
theorem addTail_of_cut (cursor : Cursor) {cut : Lexeme.Cut}
    (h : Lexeme.cut? cursor.classes .plain cursor.remaining = some cut) (fold : Bool) :
    (cursor.behind cut fold).2.addTail
        (cut.scanned cursor.classes .plain fold (cursor.position + cut.skipped.length)).token fold
      = .ok (((cut.withTail cursor.classes).scanned cursor.classes .word fold
            (cursor.position + cut.skipped.length)).token,
          (cursor.behind (cut.withTail cursor.classes) fold).2) := by
  cases hlexeme : cut.lexeme with
  | quoted inside tail =>
    obtain rfl := Lexeme.tail_of_cut? h hlexeme
    by_cases htail : cut.tail cursor.classes = []
    · rw [Lexeme.Cut.withTail_of_nil hlexeme htail]
      exact addTail_of_nil (by rw [remaining_behind hlexeme h]; exact htail) fold
    · exact addTail_of_quoted hlexeme h fold htail
  | _ =>
    have hsame : cut.withTail cursor.classes = cut := by
      rw [Lexeme.Cut.withTail, hlexeme]
    rw [hsame]
    refine addTail_of_not_quoted ?_ fold
    show cut.lexeme.flags.quoted = false
    rw [hlexeme]
    rfl

end Word

end Cursor

end LineLexer
