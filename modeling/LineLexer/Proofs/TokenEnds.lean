import LineLexer.Proofs.SourceText

/-!
# `LineLexer.Proofs.TokenEnds`: where a token ends and the next scan begins

A token names the byte that ended it, and the scan that returned it
stops either before that byte or right behind it. Whoever mixes scans
of different modes depends on which of the two it is: the rest of the
line begins where the scan before has stopped.

A delimiter is taken along with a number and with a word. One behind an
operator or behind a closing quote is left, except that in word mode a
word can go on behind the quote, and is then like any other word.

* `behindQuote`: the bytes of a quoted word behind its closing quote.
* `Token.TakesDelimiter`: the tokens that take a delimiter along.
* `Lexeme.MadeOf.takes`: a token takes a delimiter along exactly if its
  lexeme does.
* `Token.EndsAt`: what a token says about its end, and where the scan
  stops.
* `Cursor.scan_rest`: what a scan of the rest of the line returns.
* `Cursor.endsAt_of_run`: a token says what ended it at every moment of
  the history of a line's cursor, in any mode and in any scopes.
-/

set_option autoImplicit false

namespace LineLexer

open Ascii

/-! ### What stands behind a closing quote -/

/-- The bytes of a quoted word behind its closing quote, which is the
first byte like the one that the word begins with. There are none if no
such byte comes. -/
def behindQuote : List UInt8 → List UInt8
  | [] => []
  | quote :: rest => (rest.dropWhile (· != quote)).drop 1

/-- Behind a quote that is never closed there is nothing. -/
theorem behindQuote_of_unclosed {quote : UInt8} {inside : List UInt8} (h : quote ∉ inside) :
    behindQuote (quote :: inside) = [] := by
  rw [behindQuote, List.dropWhile_eq_nil_iff.mpr (Lexeme.forall_bne h)]
  rfl

/-- Behind a quote that is closed by the first byte like it there is the
tail of the word. -/
theorem behindQuote_of_closed {quote : UInt8} {inside : List UInt8} (h : quote ∉ inside)
    (tail : List UInt8) : behindQuote (quote :: (inside ++ quote :: tail)) = tail := by
  rw [behindQuote, Lexeme.dropWhile_bne h]
  rfl

/-! ### Tokens that take a delimiter along -/

/-- The tokens that take a delimiter along if one stands right behind
them: numbers, words without quotes, and in word mode quoted words that go
on behind their closing quote. Here `source` are the bytes that the token
covers. -/
def Token.TakesDelimiter (token : Token) (mode : Mode) (source : List UInt8) : Prop :=
  token.byteClass = .digit ∨ (token.byteClass = .other ∧ token.flags.quoted = false) ∨
    (mode = .word ∧ token.flags.quoted = true ∧ behindQuote source ≠ [])

/-- A token takes a delimiter along exactly if its lexeme passes over
one. -/
theorem Lexeme.MadeOf.takes {lexeme : Lexeme} {mode : Mode} {source : List UInt8}
    (h : lexeme.MadeOf mode source) {token : Token} (hclass : token.byteClass = lexeme.byteClass)
    (hflags : token.flags = lexeme.flags) :
    token.TakesDelimiter mode source ↔ lexeme.passesDelimiter = true := by
  unfold Token.TakesDelimiter
  rw [hclass, hflags]
  cases h with
  | operator op => simp [byteClass, flags, Flags.none, passesDelimiter]
  | word hplain => simp [byteClass, flags, Flags.none, passesDelimiter]
  | numeral htext hnegative hhex => simp [byteClass, passesDelimiter]
  | unclosed hmode hquote hinside =>
    simp [byteClass, flags, passesDelimiter, behindQuote_of_unclosed hinside]
  | @closed quote inside tail hmode hquote hinside htail =>
    rw [behindQuote_of_closed hinside]
    -- Only word mode goes on behind the closing quote.
    have hword : tail ≠ [] → mode = .word := by
      intro hne
      by_contra hmode
      exact hne (htail hmode)
    simpa [byteClass, flags, passesDelimiter] using hword

/-- A scan passes over the bytes up to the end of its lexeme, and over one
more if a delimiter stands there and the lexeme takes it along. -/
theorem Lexeme.Cut.width_eq (cut : Lexeme.Cut) (classes : ClassTable) :
    cut.width classes = cut.skipped.length + cut.source.length
      + if cut.lexeme.passesDelimiter = true ∧
          (∃ b, cut.after.head? = some b ∧ classes b = .delimiter) then 1 else 0 := by
  unfold Lexeme.Cut.width
  cases cut.after.head? with
  | none => simp
  | some b => simp

/-! ### The end of a token -/

/-- What a token of a line says about its end, and where the scan that
returned it has stopped. The table is the one that was in force during the
scan. -/
structure Token.EndsAt (token : Token) (mode : Mode) (bytes : List UInt8) (table : ClassTable)
    (position : Nat) : Prop where
  /-- The token names the byte behind it, and zero if there is none. -/
  delimiter : token.delimiter = bytes[token.span.stop]?.getD 0
  delimiter_eq_zero_iff : token.delimiter = 0 ↔ token.span.stop = bytes.length
  delimiterClass : token.delimiterClass = (bytes[token.span.stop]?.map table).getD .delimiter
  /-- A delimiter behind a token that takes it along is passed over with
  the token. -/
  passed : (∃ b, bytes[token.span.stop]? = some b ∧ table b = .delimiter) →
    token.TakesDelimiter mode (token.span.slice bytes) → position = token.span.stop + 1
  /-- In every other case the scan stops where the token ends. -/
  stopped : ¬ ((∃ b, bytes[token.span.stop]? = some b ∧ table b = .delimiter) ∧
    token.TakesDelimiter mode (token.span.slice bytes)) → position = token.span.stop

namespace Cursor

variable {cursor next : Cursor} {mode : Mode} {fold : Bool} {token : Token}

/-- The byte behind a cut is zero, or missing, exactly if the cut ends at
the end of the line. -/
theorem head?_after_eq_zero_iff {cut : Lexeme.Cut} (h : cursor.cut? mode = some cut) :
    cut.after.head?.getD 0 = 0 ↔
      cursor.position + cut.skipped.length + cut.source.length = cursor.line.bytes.length := by
  have hafter := Lexeme.Cut.drop_line h rfl
  have hlength := congrArg List.length (Lexeme.Cut.bytes_of_cut? h)
  simp only [List.length_append, length_remaining, Line.length, Lexeme.Cut.source,
    List.length_cons] at hlength ⊢
  cases hrest : cut.after with
  | nil =>
    rw [hrest, List.length_nil] at hlength
    simp only [List.head?_nil, Option.getD_none, true_iff]
    omega
  | cons b rest =>
    -- No byte of a line is zero.
    have hzero : 0 ∉ cut.after := by
      rw [← hafter]
      intro hmem
      exact cursor.line.zero_not_mem (List.mem_of_mem_drop hmem)
    have hb : b ≠ 0 := by
      rintro rfl
      exact hzero (by simp [hrest])
    rw [hrest, List.length_cons] at hlength
    simp only [List.head?_cons, Option.getD_some, hb, false_iff]
    omega

/-- The token of a cut says what ended it, and the scan stops as far on as
the cut is wide. -/
theorem endsAt_of_cut {cut : Lexeme.Cut} (hspells : cursor.classes.SpellsOperators)
    (hdigits : cursor.classes.SpellsNumbers) (h : cursor.cut? mode = some cut) (fold : Bool) :
    (cut.scanned (mode.classes cursor.classes) mode fold
        (cursor.position + cut.skipped.length)).token.EndsAt mode cursor.line.bytes
      (mode.classes cursor.classes) (cursor.position + cut.width (mode.classes cursor.classes)) := by
  have hmade := Lexeme.madeOf_cut? (hspells.classes mode)
    (ClassTable.lasting_spellsNumbers.classes hdigits mode) h
  have hslice := Lexeme.Cut.slice_line h rfl fold
  have hafter := Lexeme.Cut.drop_line h rfl
  have hwidth := cut.width_eq (mode.classes cursor.classes)
  generalize htoken : (cut.scanned (mode.classes cursor.classes) mode fold
    (cursor.position + cut.skipped.length)).token = token at hslice ⊢
  have hstop : token.span.stop = cursor.position + cut.skipped.length + cut.source.length := by
    rw [← htoken]
    rfl
  -- The byte that ended the token is the first one behind the cut.
  have hbehind : cursor.line.bytes[token.span.stop]? = cut.after.head? := by
    rw [hstop, ← List.head?_drop, hafter]
  have htakes : token.TakesDelimiter mode cut.source ↔ cut.lexeme.passesDelimiter = true :=
    hmade.takes (by rw [← htoken]; rfl) (by rw [← htoken]; rfl)
  have hdelimiter : token.delimiter = cut.after.head?.getD 0 := by
    rw [← htoken]
    rfl
  refine ⟨?_, ?_, ?_, ?_, ?_⟩
  · rw [hbehind, hdelimiter]
  · rw [hdelimiter, hstop]
    exact head?_after_eq_zero_iff h
  · rw [hbehind, ← htoken]
    rfl
  · intro hfollows hpasses
    rw [hslice, htakes] at hpasses
    rw [hbehind] at hfollows
    rw [if_pos ⟨hpasses, hfollows⟩] at hwidth
    omega
  · intro hnot
    rw [hslice, htakes, hbehind, and_comm] at hnot
    rw [if_neg hnot] at hwidth
    omega

/-- In a class table in which operators and numbers are spelled by bytes
that can spell them, a token that a scan returns says what ended it, and
the scan stops where it should. -/
theorem endsAt_of_scan (hspells : cursor.classes.SpellsOperators)
    (hdigits : cursor.classes.SpellsNumbers) (h : cursor.scan mode fold = (some token, next)) :
    token.EndsAt mode cursor.line.bytes (mode.classes cursor.classes) next.position := by
  cases hcut : cursor.cut? mode with
  | none =>
    rw [scan, hcut] at h
    cases h
  | some cut =>
    rw [scan, hcut] at h
    cases h
    exact endsAt_of_cut hspells hdigits hcut fold

/-- A scan is the token that it returns and the cursor behind it. -/
theorem scan_eq_of_token (h : (cursor.scan mode fold).1 = some token) :
    cursor.scan mode fold = (some token, (cursor.scan mode fold).2) :=
  Prod.ext h rfl

/-! ### The rest of the line -/

/-- A scan of the rest of the line returns one token with all bytes
from where it begins, and nothing at the end of the line. -/
theorem scan_rest (cursor : Cursor) (fold : Bool) :
    (cursor.scan .rest fold).1.map (fun rest => (rest.span, rest.rawText))
      = if cursor.position < cursor.line.length then
          some (⟨cursor.position, cursor.line.length⟩, Utf8.decode cursor.remaining)
        else none := by
  have hlength := cursor.length_remaining
  cases hremaining : cursor.remaining with
  | nil =>
    rw [hremaining, List.length_nil] at hlength
    rw [if_neg (by omega), scan, cut?, hremaining]
    rfl
  | cons first more =>
    rw [hremaining, List.length_cons] at hlength
    have hstop : cursor.position + (first :: more).length = cursor.line.length := by
      simp only [List.length_cons]
      omega
    rw [if_pos (by omega), scan, cut?, hremaining, ← hstop]
    rfl

/-- In a class table in which operators and numbers are spelled by bytes
that can spell them, a token that a scan returns says what ended it, and
the rest of the line begins just where the scan has stopped. -/
theorem endsAt_and_rest (hspells : cursor.classes.SpellsOperators)
    (hdigits : cursor.classes.SpellsNumbers) (h : cursor.scan mode fold = (some token, next)) :
    token.EndsAt mode cursor.line.bytes (mode.classes cursor.classes) next.position ∧
      ∀ again, (next.scan .rest again).1.map (fun rest => (rest.span, rest.rawText))
        = if next.position < cursor.line.length then
            some (⟨next.position, cursor.line.length⟩,
              Utf8.decode (cursor.line.bytes.drop next.position))
          else none := by
  have hline : next.line = cursor.line := by
    simpa [h] using cursor.line_scan mode fold
  refine ⟨endsAt_of_scan hspells hdigits h, ?_⟩
  intro again
  rw [← hline]
  exact next.scan_rest again

/-! ### Any history -/

/-- Whatever has been done to the cursor of a line, and in whatever
scopes it is, a token that the next scan returns says what ended it,
and the scan stops there or behind the delimiter that it takes along.
The rest of the line begins just where it has stopped. -/
theorem endsAt_of_run {settings : Settings} {bytes : List UInt8}
    (h : settings.cursor? bytes = some cursor) (tokens : List Token) (moves : List Move) :
    let reached := ((Moment.start cursor tokens).run moves).session.cursor
    reached.scan mode fold = (some token, next) →
      token.EndsAt mode reached.line.bytes (mode.classes reached.classes) next.position ∧
        ∀ again, (next.scan .rest again).1.map (fun rest => (rest.span, rest.rawText))
          = if next.position < reached.line.length then
              some (⟨next.position, reached.line.length⟩,
                Utf8.decode (reached.line.bytes.drop next.position))
            else none := by
  intro reached hscan
  have hsound := ((Moment.Sound.start (.of_cursor? h) tokens).run moves).session.cursor
  have hlasting := ClassTable.lasting_spellsNumbers
  have htables := (Moment.Tables.start (hlasting.of_cursor? h) tokens).run hlasting moves
  exact endsAt_and_rest hsound.spells htables.session.cursor hscan

/-- Behind the `x` of `x 'a b'c,d` and in a scope of real numbers, the
quoted word that goes on behind its closing quote takes along the comma
that is pinned. The rest of the line is the `d`. -/
theorem endsAt_of_quoted :
    ∃ cursor, (Settings.mk true [0x2c] .plain).cursor?
        [0x78, 0x20, 0x27, 0x61, 0x20, 0x62, 0x27, 0x63, 0x2c, 0x64] = some cursor ∧
      let reached := ((Moment.start cursor []).run
        [.act (.scan .plain true), .enter .real]).session.cursor
      ∃ token next, reached.scan .word false = (some token, next) ∧ token.span = ⟨2, 8⟩ ∧
        next.position = 9 ∧
        token.EndsAt .word reached.line.bytes (Mode.word.classes reached.classes) next.position ∧
        ∀ again, (next.scan .rest again).1.map (fun rest => (rest.span, rest.rawText))
          = if next.position < reached.line.length then
              some (⟨next.position, reached.line.length⟩,
                Utf8.decode (reached.line.bytes.drop next.position))
            else none := by
  have h : (Settings.mk true [0x2c] .plain).cursor?
      [0x78, 0x20, 0x27, 0x61, 0x20, 0x62, 0x27, 0x63, 0x2c, 0x64] = some _ := rfl
  refine ⟨_, h, ?_⟩
  intro reached
  have hscan : (reached.scan .word false).1.map Token.span = some ⟨2, 8⟩ ∧
      (reached.scan .word false).2.position = 9 := by
    decide +kernel
  obtain ⟨token, htoken, hspan⟩ := Option.map_eq_some_iff.mp hscan.1
  have hreturned := scan_eq_of_token htoken
  exact ⟨token, _, hreturned, hspan, hscan.2, endsAt_of_run h [] _ hreturned⟩

/-- Whatever commands a session has performed, a token that the next scan
returns says what ended it, and the rest of the line begins just where the
scan has stopped. -/
theorem endsAt_of_commands {settings : Settings} {bytes : List UInt8}
    (h : settings.cursor? bytes = some cursor) (tokens : List Token) (commands : List Command) :
    let reached := ((Moment.start cursor tokens).session.after commands).cursor
    reached.scan mode fold = (some token, next) →
      token.EndsAt mode reached.line.bytes (mode.classes reached.classes) next.position ∧
        ∀ again, (next.scan .rest again).1.map (fun rest => (rest.span, rest.rawText))
          = if next.position < reached.line.length then
              some (⟨next.position, reached.line.length⟩,
                Utf8.decode (reached.line.bytes.drop next.position))
            else none := by
  have hsound := Moment.Sound.after (.of_cursor? h) tokens commands
  have hlasting := ClassTable.lasting_spellsNumbers
  have htables := Moment.Tables.after hlasting (hlasting.of_cursor? h) tokens commands
  exact endsAt_and_rest hsound.cursor.spells htables.cursor

end Cursor

end LineLexer
