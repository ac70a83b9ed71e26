import LineLexer.Proofs.LookAhead
import LineLexer.Proofs.Stepwise

/-!
# `LineLexer.Proofs.StepwiseReading`: where a lexeme ends, byte by byte

A draft is extended one byte at a time until it ends. For numbers,
words and quoted words this comes to the bytes that `Lexeme.cut?` takes
at once, with the cursor at rest behind them, and no step back is taken
from the start of the line.

* `extend_numeral`, `extend_word`, `extend_quoted_of_closed`,
  `extend_quoted_of_unclosed`: one lemma for each kind of lexeme.
* `readFirst_of_append`, `readFirst_of_delimiters`: the first byte that
  is no delimiter.
-/

set_option autoImplicit false

namespace LineLexer

open Ascii

namespace Cursor

/-! ### Moving over bytes that are there -/

/-- The cursor some bytes on. -/
def advance (cursor : Cursor) (count : Nat) : Cursor :=
  { cursor with position := cursor.position + count }

section Advance
variable {cursor : Cursor} {b : UInt8} {rest : List UInt8}

@[simp] theorem advance_zero (cursor : Cursor) : cursor.advance 0 = cursor := rfl

@[simp] theorem advance_advance (cursor : Cursor) (count more : Nat) :
    (cursor.advance count).advance more = cursor.advance (count + more) := by
  simp [advance, Nat.add_assoc]

@[simp] theorem remaining_advance (cursor : Cursor) (count : Nat) :
    (cursor.advance count).remaining = cursor.remaining.drop count := by
  simp [advance, remaining]

@[simp] theorem position_advance (cursor : Cursor) (count : Nat) :
    (cursor.advance count).position = cursor.position + count := rfl

@[simp] theorem classes_advance (cursor : Cursor) (count : Nat) :
    (cursor.advance count).classes = cursor.classes := rfl

@[simp] theorem line_advance (cursor : Cursor) (count : Nat) :
    (cursor.advance count).line = cursor.line := rfl

/-- What the cursor sees is the first byte that remains of the line, with
its class. -/
theorem peek_eq (cursor : Cursor) :
    cursor.peek = cursor.remaining.head?.map fun b => (b, cursor.classes b) := by
  rw [peek, peekAt_eq, List.head?_eq_getElem?]

/-- Consuming a byte that is there moves the cursor one byte on. -/
theorem consume_of_cons (h : cursor.remaining = b :: rest) :
    cursor.consume = cursor.advance 1 := by
  have hend : cursor.atEnd = false := by
    rw [← Bool.not_eq_true, ← remaining_eq_nil_iff, h]
    simp
  simp [consume, hend, advance]

/-- A cursor that has moved on can take a step back, which undoes the last
byte. -/
@[simp] theorem unread_advance (cursor : Cursor) (count : Nat) :
    (cursor.advance (count + 1)).unread = .ok (cursor.advance count) := by
  simp [unread, advance, ← Nat.add_assoc]

end Advance

/-! ### Bytes up to the end of the lexeme -/

section Extend
variable {cursor : Cursor} {reals : Bool} {draft : Draft} {b : UInt8} {rest : List UInt8}

/-- At the end of the line a lexeme ends with what it has. -/
theorem extend_of_nil (h : cursor.remaining = []) :
    extend reals draft cursor = .ok (draft, cursor.position, cursor) := by
  have hpeek : cursor.peek = none := by rw [peek_eq, h]; rfl
  rw [extend]
  split
  · rfl
  · next heq => rw [hpeek] at heq; cases heq

/-- Before a byte of the line, the byte is judged first. The lexeme goes
on with the draft that takes it, ends where the judgement says, or breaks
off with it. -/
theorem extend_of_cons (h : cursor.remaining = b :: rest) :
    extend reals draft cursor
      = match draft.take reals (cursor.advance 1) b (cursor.classes b) with
        | .ok (.more next) => extend reals next (cursor.advance 1)
        | .ok (.ended last stop rested) => .ok (last, stop, rested)
        | .error failure => .error failure := by
  have hpeek : cursor.peek = some (b, cursor.classes b) := by rw [peek_eq, h]; rfl
  rw [extend]
  split
  · next heq => rw [hpeek] at heq; cases heq
  · next heq =>
    rw [hpeek] at heq
    cases heq
    exact consume_of_cons h ▸ rfl

/-- If the next byte belongs to the lexeme, extending goes on behind it
with the longer draft. -/
theorem extend_of_more {next : Draft} (h : cursor.remaining = b :: rest)
    (htake : draft.take reals (cursor.advance 1) b (cursor.classes b) = .ok (.more next)) :
    extend reals draft cursor = extend reals next (cursor.advance 1) := by
  rw [extend_of_cons h, htake]

/-- If the next byte ends the lexeme, extending returns what the judgement
of the byte says. -/
theorem extend_of_ended {last : Draft} {stop : Nat} {rested : Cursor}
    (h : cursor.remaining = b :: rest)
    (htake : draft.take reals (cursor.advance 1) b (cursor.classes b)
      = .ok (.ended last stop rested)) :
    extend reals draft cursor = .ok (last, stop, rested) := by
  rw [extend_of_cons h, htake]

/-- Giving back a byte that has just been read does not break off. The
lexeme ends before it and the cursor rests there. -/
theorem endBefore_eq (draft : Draft) (cursor : Cursor) :
    draft.endBefore (cursor.advance 1) = .ok (.ended draft cursor.position cursor) := by
  rw [Draft.endBefore, ← Nat.zero_add 1, unread_advance]
  rfl

/-- Ending a lexeme before a byte that has just been read, which is passed
over, does not break off. The cursor rests behind the byte. -/
theorem endPast_eq (draft : Draft) (cursor : Cursor) :
    draft.endPast (cursor.advance 1)
      = .ok (.ended draft cursor.position (cursor.advance 1)) := by
  rw [Draft.endPast, ← Nat.zero_add 1, unread_advance]
  rfl

end Extend

/-- How many of the bytes behind a number or a word are passed over with
it: one if a delimiter comes first, and none otherwise. -/
def passed (classes : ClassTable) (left : List UInt8) : Nat :=
  if left.head?.any fun b => classes b == .delimiter then 1 else 0

/-- A number takes a byte other than a delimiter that continues it. -/
theorem take_numeral_of_some {reals : Bool} {n next : Numeral} (cursor : Cursor) {b : UInt8}
    (hb : cursor.classes b ≠ .delimiter)
    (hnext : n.next? cursor.classes reals b cursor.remaining = some next) :
    (Draft.numeral n).take reals cursor b (cursor.classes b) = .ok (.more (.numeral next)) := by
  cases hclass : cursor.classes b with
  | delimiter => exact absurd hclass hb
  | _ => simp only [Draft.take, hnext]

/-- A number gives back a byte other than a delimiter that does not
continue it. -/
theorem take_numeral_of_none {reals : Bool} {n : Numeral} (cursor : Cursor) {b : UInt8}
    (hb : cursor.classes b ≠ .delimiter)
    (hnext : n.next? cursor.classes reals b cursor.remaining = none) :
    (Draft.numeral n).take reals cursor b (cursor.classes b)
      = (Draft.numeral n).endBefore cursor := by
  cases hclass : cursor.classes b with
  | delimiter => exact absurd hclass hb
  | _ => simp only [Draft.take, hnext]

/-- A number is extended by the bytes that its run takes. The cursor rests
behind them, or behind a delimiter that follows. -/
theorem extend_numeral (reals : Bool) (n : Numeral) (cursor : Cursor) :
    extend reals (.numeral n) cursor
      = .ok (.numeral (n.run cursor.classes reals cursor.remaining).1,
          cursor.position + (n.run cursor.classes reals cursor.remaining).2.1.length,
          cursor.advance ((n.run cursor.classes reals cursor.remaining).2.1.length
            + passed cursor.classes (n.run cursor.classes reals cursor.remaining).2.2)) := by
  generalize hbytes : cursor.remaining = bytes
  -- A number may look ahead at all of the bytes that are left. Those are
  -- `rest` for the run, and what remains behind `b` for the cursor.
  induction bytes generalizing n cursor with
  | nil =>
    rw [extend_of_nil hbytes]
    rfl
  | cons b rest ih =>
    have hrest : (cursor.advance 1).remaining = rest := by simp [hbytes]
    by_cases hb : cursor.classes b = .delimiter
    · rw [Numeral.run_of_next?_eq_none (Numeral.next?_delimiter hb),
        extend_of_ended hbytes (by rw [hb]; exact endPast_eq ..)]
      simp [passed, hb]
    · cases hnext : n.next? cursor.classes reals b rest with
      | none =>
        have htake := take_numeral_of_none (cursor.advance 1) hb (by rw [hrest]; exact hnext)
        rw [Numeral.run_of_next?_eq_none hnext,
          extend_of_ended hbytes (htake.trans (endBefore_eq ..))]
        simp [passed, hb]
      | some next =>
        have htake := take_numeral_of_some (cursor.advance 1) hb (by rw [hrest]; exact hnext)
        rw [Numeral.run_of_next?_eq_some hnext, extend_of_more hbytes htake, ih next _ hrest]
        simp [Nat.add_assoc, Nat.add_comm]

/-- A word is extended by the bytes of class other that follow. The cursor
rests behind them, or behind a delimiter that follows. -/
theorem extend_word (reals : Bool) (bytes : List UInt8) (cursor : Cursor) :
    extend reals (.word bytes) cursor
      = .ok (.word (bytes ++ cursor.remaining.takeWhile fun b => cursor.classes b == .other),
          cursor.position
            + (cursor.remaining.takeWhile fun b => cursor.classes b == .other).length,
          cursor.advance
            ((cursor.remaining.takeWhile fun b => cursor.classes b == .other).length
              + passed cursor.classes
                (cursor.remaining.dropWhile fun b => cursor.classes b == .other))) := by
  generalize hleft : cursor.remaining = left
  induction left generalizing bytes cursor with
  | nil =>
    rw [extend_of_nil hleft]
    simp [passed]
  | cons b rest ih =>
    have hrest : (cursor.advance 1).remaining = rest := by simp [hleft]
    cases hb : cursor.classes b with
    | delimiter =>
      rw [extend_of_ended hleft (by rw [hb]; exact endPast_eq ..)]
      simp [passed, hb]
    | operator =>
      rw [extend_of_ended hleft (by rw [hb]; exact endBefore_eq ..)]
      simp [passed, hb]
    | digit =>
      rw [extend_of_ended hleft (by rw [hb]; exact endBefore_eq ..)]
      simp [passed, hb]
    | other =>
      rw [extend_of_more hleft (by rw [hb]; rfl), ih _ _ hrest]
      simp [hb, Nat.add_assoc, Nat.add_comm]

/-- A quoted word is extended up to its closing quote. It ends behind the
quote, where the cursor rests. -/
theorem extend_quoted_of_closed (reals : Bool) {quote : UInt8} {inside behind : List UInt8}
    (bytes : List UInt8) (cursor : Cursor) (hleft : cursor.remaining = inside ++ quote :: behind)
    (hinside : quote ∉ inside) :
    extend reals (.quoted quote bytes) cursor
      = .ok (.quoted quote (bytes ++ inside), cursor.position + (inside.length + 1),
          cursor.advance (inside.length + 1)) := by
  induction inside generalizing bytes cursor with
  | nil =>
    rw [extend_of_ended hleft (by rw [Draft.take, if_pos rfl])]
    simp
  | cons b inside ih =>
    have hb : b ≠ quote := fun heq => hinside (heq ▸ List.mem_cons_self)
    rw [extend_of_more hleft (by rw [Draft.take, if_neg hb]),
      ih _ _ (by simp [hleft]) fun h => hinside (List.mem_cons_of_mem _ h)]
    simp [Nat.add_assoc, Nat.add_comm]

/-- A quoted word that is not closed is extended to the end of the
line. -/
theorem extend_quoted_of_unclosed (reals : Bool) {quote : UInt8} (bytes : List UInt8)
    (cursor : Cursor) (hquote : quote ∉ cursor.remaining) :
    extend reals (.quoted quote bytes) cursor
      = .ok (.quoted quote (bytes ++ cursor.remaining),
          cursor.position + cursor.remaining.length,
          cursor.advance cursor.remaining.length) := by
  generalize hleft : cursor.remaining = left at hquote
  induction left generalizing bytes cursor with
  | nil =>
    rw [extend_of_nil hleft]
    simp
  | cons b rest ih =>
    have hb : b ≠ quote := fun heq => hquote (heq ▸ List.mem_cons_self)
    rw [extend_of_more hleft (by rw [Draft.take, if_neg hb]),
      ih _ _ (by simp [hleft]) fun h => hquote (List.mem_cons_of_mem _ h)]
    simp [Nat.add_assoc, Nat.add_comm 1]

/-! ### The first byte -/

/-- At the end of the line there is no first byte. -/
theorem readFirst_of_nil {cursor : Cursor} (h : cursor.remaining = []) :
    cursor.readFirst = (none, cursor) := by
  have hpeek : cursor.peek = none := by rw [peek_eq, h]; rfl
  rw [readFirst]
  split
  · rfl
  · next heq => rw [hpeek] at heq; cases heq

/-- A delimiter is passed over in search of the first byte of a lexeme,
and any other byte is that first byte. -/
theorem readFirst_of_cons {cursor : Cursor} {b : UInt8} {rest : List UInt8}
    (h : cursor.remaining = b :: rest) :
    cursor.readFirst
      = if cursor.classes b = .delimiter then (cursor.advance 1).readFirst
        else (some (b, cursor.classes b), cursor.advance 1) := by
  have hpeek : cursor.peek = some (b, cursor.classes b) := by rw [peek_eq, h]; rfl
  rw [readFirst]
  split
  · next heq => rw [hpeek] at heq; cases heq
  · next heq =>
    rw [hpeek] at heq
    cases heq
    rw [consume_of_cons h]

/-- Where delimiters stand before a byte that is none, that byte is the
first of the lexeme, and the cursor rests behind it. -/
theorem readFirst_of_append {skipped rest : List UInt8} {first : UInt8} {cursor : Cursor}
    (hleft : cursor.remaining = skipped ++ first :: rest)
    (hskipped : ∀ b ∈ skipped, cursor.classes b = .delimiter)
    (hfirst : cursor.classes first ≠ .delimiter) :
    cursor.readFirst
      = (some (first, cursor.classes first), cursor.advance (skipped.length + 1)) := by
  induction skipped generalizing cursor with
  | nil =>
    rw [readFirst_of_cons hleft, if_neg hfirst]
    rfl
  | cons b skipped ih =>
    have hnext : (cursor.advance 1).remaining = skipped ++ first :: rest := by simp [hleft]
    rw [readFirst_of_cons hleft, if_pos (hskipped b List.mem_cons_self),
      ih hnext (fun c hc => hskipped c (List.mem_cons_of_mem _ hc)) hfirst]
    simp [Nat.add_assoc, Nat.add_comm 1]

/-- Where nothing but delimiters is left there is no first byte, and the
cursor rests at the end of the line. -/
theorem readFirst_of_delimiters {cursor : Cursor}
    (h : ∀ b ∈ cursor.remaining, cursor.classes b = .delimiter) :
    cursor.readFirst = (none, cursor.advance cursor.remaining.length) := by
  generalize hleft : cursor.remaining = left at h
  induction left generalizing cursor with
  | nil => exact readFirst_of_nil hleft
  | cons b rest ih =>
    have hnext : (cursor.advance 1).remaining = rest := by simp [hleft]
    rw [readFirst_of_cons hleft, if_pos (h b List.mem_cons_self),
      ih hnext fun c hc => h c (List.mem_cons_of_mem _ hc)]
    simp [Nat.add_comm]

end Cursor

end LineLexer
