import LineLexer.Proofs.Partition
import LineLexer.Proofs.Replay
import LineLexer.Proofs.Whole

/-!
# `LineLexer.Proofs.Iteration`: readers end and stay ended

A reader of a cursor makes the scans that could be made by hand, up to
the first one that returns nothing. From then on it is at the end of
the line, finds nothing and does not change.

* `Tokens.drain_induction`: what holds at the end of a reader and behind
  each of its tokens.
* `Tokens.next_of_next_none`: a reader that has found nothing stays as
  it is.
* `Tokens.length_drain_le`: every token uses up a byte.
* `Tokens.fst_take_drain`, `Tokens.take_drain_add`: what asking again
  and again returns.
* `Cursor.reader`: the reader of what a cursor has ahead.
* `Cursor.drain_reader_of_some`: draining a cursor that sees a token makes
  one scan and goes on behind it.
* `Tokens.Iterates`, `Cursor.iterates_reader`: how a reader is related
  to scans of its cursor.
-/

set_option autoImplicit false

namespace LineLexer

/-! ### The end of a line -/

namespace Cursor
variable (cursor : Cursor) (mode : Mode)

/-- No lexeme can be cut off at the end of a line, in any mode. -/
theorem cut?_toEnd : cursor.toEnd.cut? mode = none := by
  have hremaining : cursor.toEnd.remaining = [] := by
    simp [remaining, toEnd, Line.length]
  rw [cut?, hremaining, Lexeme.cut?_eq_none_iff]
  split
  · rfl
  · exact List.forall_mem_nil _

/-- A scan returns a token, or it returns none and stops at the end of the
line. -/
theorem scan_cases (fold : Bool) :
    cursor.scan mode fold = (none, cursor.toEnd) ∨
      ∃ token next, cursor.scan mode fold = (some token, next) := by
  unfold scan
  cases cursor.cut? mode with
  | none => exact Or.inl rfl
  | some cut => exact Or.inr ⟨_, _, rfl⟩

end Cursor

namespace Tokens

/-- A reader that has found no token stays as it is and finds none
again. -/
theorem next_of_next_none {tokens later : Tokens} (h : tokens.next = (none, later)) :
    later.next = (none, later) := by
  cases hcursor : tokens.cursor with
  | none =>
    have hnext : tokens.next = (none, tokens) := by
      unfold next
      rw [hcursor]
    obtain rfl := (Prod.mk.inj (hnext.symm.trans h)).2
    exact hnext
  | some cursor =>
    cases hcut : cursor.cut? tokens.mode with
    | none =>
      rw [next_of_none hcursor hcut] at h
      cases h
      have hend : ({ tokens with cursor := some cursor.toEnd } : Tokens).cursor
          = some cursor.toEnd := rfl
      have hagain := next_of_none hend (cursor.cut?_toEnd tokens.mode)
      exact hagain
    | some cut =>
      obtain ⟨later', hnext, -⟩ := next_of_some hcursor hcut
      rw [hnext] at h
      cases h

/-- Whoever goes on asking a reader that has found nothing gets nothing,
and nothing more is reported. -/
theorem take_of_next_none {tokens later : Tokens} (h : tokens.next = (none, later)) (count : Nat) :
    tokens.take count = List.replicate count (none, later.diagnostics) := by
  induction count generalizing tokens with
  | zero => rfl
  | succ count ih =>
    rw [take, h, List.replicate_succ]
    exact congrArg _ (ih (next_of_next_none h))

/-! ### All tokens -/

/-- What holds of a reader at its end, and of one that returns a token
if it holds of the reader behind that, holds of any reader with its
tokens and the reader that is left. -/
theorem drain_induction {p : Tokens → List Token → Tokens → Prop}
    (hnone : ∀ tokens later, tokens.next = (none, later) → p tokens [] later)
    (hsome : ∀ tokens token later more last, tokens.next = (some token, later) →
      p later more last → p tokens (token :: more) last)
    (tokens : Tokens) : p tokens tokens.drain.1 tokens.drain.2 := by
  fun_induction drain tokens with
  | case1 tokens later h => exact hnone tokens later h
  | case2 tokens token later h more last hmore ih =>
    rw [hmore] at ih
    exact hsome tokens token later more last h ih

/-- A reader has no more tokens than bytes that have not been read, as
every token covers at least one of them. -/
theorem length_drain_le (tokens : Tokens) : tokens.drain.1.length ≤ tokens.bytesLeft := by
  induction tokens using drain_induction with
  | hnone tokens later h => exact Nat.zero_le _
  | hsome tokens token later more last h ih =>
    have hlt := bytesLeft_lt_of_next h
    rw [List.length_cons]
    omega

/-- Whoever asks a reader as often as it has tokens gets them all, in the
order in which draining returns them. -/
theorem fst_take_drain (tokens : Tokens) :
    (tokens.take tokens.drain.1.length).map Prod.fst = tokens.drain.1.map some := by
  induction tokens using drain_induction with
  | hnone tokens later h => rfl
  | hsome tokens token later more last h ih =>
    rw [List.length_cons, take, h, List.map_cons, ih]
    rfl

/-- Whoever asks a reader more often than it has tokens gets nothing from
then on, and nothing more is reported. -/
theorem take_drain_add (tokens : Tokens) (count : Nat) :
    tokens.take (tokens.drain.1.length + count)
      = tokens.take tokens.drain.1.length
        ++ List.replicate count (none, tokens.drain.2.diagnostics) := by
  induction tokens using drain_induction with
  | hnone tokens later h =>
    rw [List.length_nil, Nat.zero_add]
    exact take_of_next_none h count
  | hsome tokens token later more last h ih =>
    rw [List.length_cons, Nat.add_right_comm, take, take, h]
    exact congrArg _ ih

end Tokens

/-! ### The reader of a cursor -/

namespace Cursor

/-- The reader of what a cursor has ahead, in a mode and with folding or
without. -/
def reader (cursor : Cursor) (mode : Mode) (fold : Bool) : Tokens := ⟨some cursor, mode, fold⟩

section Reader
variable {cursor other next : Cursor} {mode : Mode} {fold : Bool} {token : Token}

/-- A reader has no tokens if a scan of its cursor returns none. -/
theorem drain_reader_of_none (h : (cursor.scan mode fold).1 = none) :
    (cursor.reader mode fold).drain.1 = [] := by
  have hcursor : (cursor.reader mode fold).cursor = some cursor := rfl
  have hnext := Tokens.next_of_none hcursor ((scan_eq_none_iff cursor mode fold).mp h)
  rw [Tokens.drain_of_next_none hnext]

/-- A reader of a cursor at the end of its line has no tokens. -/
theorem drain_reader_toEnd (cursor : Cursor) (mode : Mode) (fold : Bool) :
    (cursor.toEnd.reader mode fold).drain.1 = [] :=
  drain_reader_of_none ((scan_eq_none_iff ..).mpr (cursor.cut?_toEnd mode))

/-- If a scan of the cursor returns a token, the reader has that token,
and then those of a reader of the cursor behind it. In rest mode there is
no second token. -/
theorem drain_reader_of_some (hmode : mode ≠ .rest)
    (h : cursor.scan mode fold = (some token, next)) :
    (cursor.reader mode fold).drain.1 = token :: (next.reader mode fold).drain.1 := by
  have hnext : (cursor.reader mode fold).next = (some token, next.reader mode fold) := by
    simp [Tokens.next, reader, h, hmode]
  rw [Tokens.drain_of_next_some hnext]

/-- A reader of the rest of the line has one token at most. -/
theorem drain_reader_rest (cursor : Cursor) (fold : Bool) :
    (cursor.reader .rest fold).drain.1 = (cursor.scan .rest fold).1.toList := by
  rcases cursor.scan_cases .rest fold with h | ⟨token, next, h⟩
  · rw [drain_reader_of_none (by rw [h]), h]
    rfl
  · -- Behind the token the reader is at the end of the line.
    have hnext : (cursor.reader .rest fold).next = (some token, next.toEnd.reader .rest fold) := by
      simp [Tokens.next, reader, h]
    rw [Tokens.drain_of_next_some hnext, drain_reader_toEnd, h]
    rfl

/-- The tokens of a reader depend on the place of its cursor alone. What
has been reported and what can be given back do not matter. -/
theorem SamePlace.drain_reader (h : cursor.SamePlace other) (mode : Mode) (fold : Bool) :
    (cursor.reader mode fold).drain.1 = (other.reader mode fold).drain.1 := by
  have hcursor : (cursor.reader mode fold).cursor = some cursor := rfl
  have hother : (other.reader mode fold).cursor = some other := rfl
  rw [(Tokens.drain_eq hcursor).1, (Tokens.drain_eq hother).1, remaining, remaining, h.line,
    h.position, h.classes]
  rfl

/-- How far a scan comes does not depend on folding, so scans with folding
and without can be mixed. -/
theorem samePlace_scan (cursor : Cursor) (mode : Mode) (fold other : Bool) :
    (cursor.scan mode fold).2.SamePlace (cursor.scan mode other).2 := by
  refine ⟨?_, ?_, ?_⟩
  · rw [line_scan, line_scan]
  · unfold scan
    cases cursor.cut? mode <;> rfl
  · rw [classes_scan, classes_scan]

/-- The reader of a cursor behind a scan has the tokens of the reader
before it but the first, whether the scan folded letters or not. -/
theorem drain_reader_scan (hmode : mode ≠ .rest) (cursor : Cursor) (fold other : Bool) :
    ((cursor.scan mode other).2.reader mode fold).drain.1
      = (cursor.reader mode fold).drain.1.drop 1 := by
  rw [(cursor.samePlace_scan mode other fold).drain_reader]
  rcases cursor.scan_cases mode fold with h | ⟨token, next, h⟩
  · have hnone : (cursor.scan mode fold).1 = none := by rw [h]
    rw [drain_reader_of_none hnone, h]
    exact cursor.drain_reader_toEnd mode fold
  · rw [drain_reader_of_some hmode h, h]
    rfl

end Reader

end Cursor

/-- How a reader is related to scans of a cursor. There is one field for
each thing that is promised about readers. -/
structure Tokens.Iterates (reader : Tokens) (cursor : Cursor) : Prop where
  /-- The reader has no more tokens than the cursor has bytes left. -/
  length_le : reader.drain.1.length ≤ cursor.remaining.length
  /-- The reader has the tokens that scans return, up to the first scan
  that returns none. -/
  scans : reader.mode ≠ .rest →
    (cursor.scanAll (List.replicate (reader.drain.1.length + 1) (reader.mode, reader.fold))).1.map
      Cursor.Call.token = reader.drain.1.map some ++ [none]
  /-- The rest of the line is one token, if there is any. -/
  rest : reader.mode = .rest → cursor.remaining ≠ [] →
    ∃ token, (cursor.scan .rest reader.fold).1 = some token ∧ reader.drain.1 = [token]
  /-- The reader returns its tokens, if it is asked one time after the
  other. -/
  returns : (reader.take reader.drain.1.length).map Prod.fst = reader.drain.1.map some
  /-- The reader returns nothing after its last token, however often it is
  asked, and nothing more is reported. -/
  stays : ∀ count, reader.take (reader.drain.1.length + count)
    = reader.take reader.drain.1.length
      ++ List.replicate count (none, reader.drain.2.diagnostics)
  /-- The reader of a cursor behind some scans has as many tokens less. -/
  behind : reader.mode ≠ .rest → ∀ folds : List Bool,
    ((cursor.scanAll (folds.map fun fold => (reader.mode, fold))).2.reader reader.mode
      reader.fold).drain.1 = reader.drain.1.drop folds.length

namespace Cursor

/-- The scans of a mode return the tokens of a reader in that mode, and
the one behind them returns none. -/
theorem token_scanAll {mode : Mode} (hmode : mode ≠ .rest) (cursor : Cursor) (fold : Bool) :
    (cursor.scanAll
        (List.replicate ((cursor.reader mode fold).drain.1.length + 1) (mode, fold))).1.map Call.token
      = (cursor.reader mode fold).drain.1.map some ++ [none] := by
  -- The induction is on the tokens of the reader.
  induction htokens : (cursor.reader mode fold).drain.1 generalizing cursor with
  | nil =>
    rcases cursor.scan_cases mode fold with h | ⟨token, next, h⟩
    · simp [scanAll, h]
    · rw [drain_reader_of_some hmode h] at htokens
      cases htokens
  | cons token more ih =>
    rcases cursor.scan_cases mode fold with h | ⟨first, next, h⟩
    · rw [drain_reader_of_none (by rw [h])] at htokens
      cases htokens
    · rw [drain_reader_of_some hmode h] at htokens
      obtain ⟨rfl, hmore⟩ := List.cons.inj htokens
      rw [List.length_cons, List.replicate_succ, scanAll, h, List.map_cons, ih next hmore]
      rfl

/-- Some scans take as many tokens away from the reader, by induction on
the scans. -/
theorem drain_reader_scanAll {mode : Mode} (hmode : mode ≠ .rest) (cursor : Cursor) (fold : Bool)
    (folds : List Bool) :
    ((cursor.scanAll (folds.map fun other => (mode, other))).2.reader mode fold).drain.1
      = (cursor.reader mode fold).drain.1.drop folds.length := by
  induction folds generalizing cursor with
  | nil => rfl
  | cons other folds ih =>
    show (((cursor.scan mode other).2.scanAll _).2.reader mode fold).drain.1 = _
    rw [ih, drain_reader_scan hmode, List.drop_drop, List.length_cons, Nat.add_comm]

/-- The reader of every cursor, in every mode and with folding or without,
is related to the scans of the cursor in all of these ways. Nothing is
assumed of the cursor, not even that its position lies in the line. -/
theorem iterates_reader (cursor : Cursor) (mode : Mode) (fold : Bool) :
    (cursor.reader mode fold).Iterates cursor where
  length_le := by
    have hle := (cursor.reader mode fold).length_drain_le
    rw [length_remaining]
    exact hle
  scans hmode := token_scanAll hmode cursor fold
  rest hmode hremaining := by
    have hrest : mode = .rest := hmode
    subst hrest
    have hsome : (cursor.scan .rest fold).1 ≠ none := by
      rw [Ne, scan_eq_none_iff, cut?, Lexeme.cut?_eq_none_iff, if_pos rfl]
      exact hremaining
    obtain ⟨token, htoken⟩ := Option.ne_none_iff_exists'.mp hsome
    refine ⟨token, htoken, ?_⟩
    rw [drain_reader_rest, htoken]
    rfl
  returns := (cursor.reader mode fold).fst_take_drain
  stays := (cursor.reader mode fold).take_drain_add
  behind hmode := drain_reader_scanAll hmode cursor fold

-- The two quotes of `"" "` and the third, which is never closed, make tokens without text.
example : (tokenize [0x22, 0x22, 0x20, 0x22] .word .standard).map Token.text = ["", ""] := by
  decide +kernel

end Cursor

end LineLexer
