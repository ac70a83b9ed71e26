import LineLexer.Proofs.Sound
import LineLexer.Proofs.StepwiseTail

/-!
# `LineLexer.Proofs.Unfailing`: a scan never breaks off

The byte by byte scanner of `LineLexer.Proofs.Stepwise` has six ways to
break off. For every cursor that stays in its line, and whose operators
are operators, it takes none of them, and comes to what `Cursor.scan`
comes to. Every cursor that can be reached is of this kind.

* `scanLexeme_of_some`, `scanLexeme_of_none`: a scan in the class table
  as it is, one kind of lexeme after the other.
* `scanStepwise_eq`: the scan in each of the four modes.
* `scanStepwise_of_run`: the scan at any moment of any history of a
  line's cursor.
* `scanStepwise_of_commands`: the scan after any commands.
-/

set_option autoImplicit false

namespace LineLexer

open Ascii

namespace Cursor

section Lexeme
variable (cursor : Cursor) (mode : Mode)

/-- If there is a lexeme to cut off, the scan byte by byte does not break
off and comes to the token and the cursor of the cut, in plain and in real
mode. -/
theorem scanLexeme_of_some {cut : Lexeme.Cut} (hrest : mode ≠ .rest) (hword : mode ≠ .word)
    (hspells : cursor.classes.SpellsOperators)
    (h : Lexeme.cut? cursor.classes mode cursor.remaining = some cut) (fold : Bool) :
    cursor.scanLexeme (mode == .real) fold = .ok (cursor.behind cut fold) := by
  obtain ⟨-, hfirst, -⟩ := Lexeme.read_of_cut? hrest h
  cases hclass : cursor.classes cut.first with
  | delimiter => exact absurd hclass hfirst
  | digit => exact scanLexeme_of_digit hrest h hclass fold
  | operator =>
    cases hsigned : Lexeme.beginsSigned cursor.classes cut.first (cut.more ++ cut.after) with
    | true => exact scanLexeme_of_signed hrest h hclass hsigned fold
    | false => exact scanLexeme_of_operator hrest h hclass hspells hsigned fold
  | other =>
    cases hquote : isQuote cut.first with
    | true => exact scanLexeme_of_quote hrest hword h hclass hquote fold
    | false => exact scanLexeme_of_word hrest h hclass hquote fold

/-- If only delimiters are left, the scan byte by byte does not break off.
It returns no token and leaves the cursor at the end of the line. -/
theorem scanLexeme_of_none (reals : Bool) (hrest : mode ≠ .rest)
    (hpos : cursor.position ≤ cursor.line.length)
    (h : Lexeme.cut? cursor.classes mode cursor.remaining = none) (fold : Bool) :
    cursor.scanLexeme reals fold = .ok (none, cursor.toEnd) := by
  rw [Lexeme.cut?_eq_none_iff, if_neg hrest] at h
  have hend : cursor.advance cursor.remaining.length = cursor.toEnd := by
    rw [advance, toEnd, length_remaining, Nat.add_sub_cancel' hpos]
  rw [scanLexeme, readFirst_of_delimiters h, hend]

end Lexeme

/-! ### The four modes -/

section Modes
variable {cursor : Cursor}

/-- If there is no lexeme to cut off, a scan returns no token and leaves
the cursor at the end of the line. -/
theorem scan_of_none {mode : Mode} (h : cursor.cut? mode = none) (fold : Bool) :
    cursor.scan mode fold = (none, cursor.toEnd) := by
  rw [scan, h]

/-- In plain mode the scan byte by byte does not break off, and comes to
what `Cursor.scan` comes to. -/
theorem scanStepwise_plain (hpos : cursor.position ≤ cursor.line.length)
    (hspells : cursor.classes.SpellsOperators) (fold : Bool) :
    cursor.scanStepwise .plain fold = .ok (cursor.scan .plain fold) := by
  cases hcut : cursor.cut? .plain with
  | none =>
    rw [scan_of_none hcut]
    exact scanLexeme_of_none cursor .plain false (by decide) hpos hcut fold
  | some cut =>
    rw [scan, hcut]
    exact scanLexeme_of_some cursor .plain (by decide) (by decide) hspells hcut fold

/-- Setting the real value of a token that was cut in plain mode makes the
token that real mode cuts, and reports what real mode reports. -/
theorem setRealValue_of_cut {rested : Cursor} {cut : Lexeme.Cut} {classes : ClassTable}
    {start : Nat} (diagnostics : List Diagnostic)
    (h : rested.diagnostics
      = diagnostics ++ (cut.scanned classes .plain true start).diagnostics) :
    rested.setRealValue (cut.scanned classes .plain true start).token
      = ((cut.scanned classes .real true start).token,
          { rested with
            diagnostics :=
              diagnostics ++ (cut.scanned classes .real true start).diagnostics }) := by
  by_cases hdigit : cut.lexeme.byteClass = .digit
  · cases hlexeme : cut.lexeme with
    | numeral n =>
      have hplain : Mode.plain.folds true = true := rfl
      have hreal : Mode.real.folds true = true := rfl
      unfold setRealValue
      simp [Lexeme.Cut.scanned, hlexeme, hplain, hreal, Lexeme.byteClass, Lexeme.flags,
        Lexeme.realValue?, report, Numeral.realValue?, h]
    | _ => simp [hlexeme, Lexeme.byteClass] at hdigit
  · -- Nothing but a number has a real value.
    have hsame : cut.scanned classes .real true start = cut.scanned classes .plain true start := by
      have hnone : ∀ text value, cut.lexeme.realValue? .real text value = none := by
        intro text value
        cases hlexeme : cut.lexeme <;> first | rfl | simp [hlexeme, Lexeme.byteClass] at hdigit
      have hplain : ∀ text value, cut.lexeme.realValue? .plain text value = none :=
        fun _ _ => rfl
      simp [Lexeme.Cut.scanned, hnone, hplain, Mode.folds]
    rw [hsame, ← h, setRealValue]
    exact if_neg hdigit

/-- In real mode a token is scanned in the widened table, and gets its
real value when the table is as before. -/
theorem scanStepwise_real_of_some {token : Token} {rested : Cursor}
    (h : (cursor.widen .real).scanLexeme true true = .ok (some token, rested)) (fold : Bool) :
    cursor.scanStepwise .real fold
      = .ok (some ((rested.withClasses cursor.classes).setRealValue token).1,
          ((rested.withClasses cursor.classes).setRealValue token).2) := by
  rw [scanStepwise, h]
  rfl

/-- In real mode the scan byte by byte does not break off, and comes to
what `Cursor.scan` comes to. -/
theorem scanStepwise_real (hpos : cursor.position ≤ cursor.line.length)
    (hspells : cursor.classes.SpellsOperators) (fold : Bool) :
    cursor.scanStepwise .real fold = .ok (cursor.scan .real fold) := by
  have hclasses : (cursor.widen .real).classes = Mode.real.classes cursor.classes :=
    classes_widen ..
  cases hcut : cursor.cut? .real with
  | none =>
    rw [cut?, ← hclasses] at hcut
    have hscan := scanLexeme_of_none (cursor.widen .real) .real true (by decide) hpos hcut true
    rw [scanStepwise, hscan, scan_of_none (by rw [cut?, ← hclasses, hcut])]
    rfl
  | some cut =>
    rw [scan, hcut]
    rw [cut?, ← hclasses] at hcut
    -- A real scan always folds, whatever it is asked.
    have hscan := scanLexeme_of_some (cursor.widen .real) .real (by decide) (by decide)
      (hclasses ▸ hspells.widen _) hcut true
    refine (scanStepwise_real_of_some hscan fold).trans ?_
    rw [setRealValue_of_cut cursor.diagnostics rfl, hclasses]
    rfl

/-- In word mode a token is scanned in the widened table, and gets its
tail before the table is as before. -/
theorem scanStepwise_word_of_some {fold : Bool} {token longer : Token} {rested final : Cursor}
    (h : (cursor.widen .word).scanLexeme false fold = .ok (some token, rested))
    (htail : rested.addTail token fold = .ok (longer, final)) :
    cursor.scanStepwise .word fold = .ok (some longer, final.withClasses cursor.classes) := by
  rw [scanStepwise, h]
  simp only [htail, bind, Except.bind]
  rfl

/-- In word mode the scan byte by byte does not break off, and comes to
what `Cursor.scan` comes to. -/
theorem scanStepwise_word (hpos : cursor.position ≤ cursor.line.length)
    (hspells : cursor.classes.SpellsOperators) (fold : Bool) :
    cursor.scanStepwise .word fold = .ok (cursor.scan .word fold) := by
  have hclasses : (cursor.widen .word).classes = Mode.word.classes cursor.classes :=
    classes_widen ..
  have hcut : cursor.cut? .word
      = (Lexeme.cut? (cursor.widen .word).classes .plain cursor.remaining).map
          fun cut => cut.withTail (cursor.widen .word).classes := by
    rw [cut?, ← hclasses, Lexeme.cut?_word]
  cases hplain : Lexeme.cut? (cursor.widen .word).classes .plain cursor.remaining with
  | none =>
    have hscan := scanLexeme_of_none (cursor.widen .word) .plain false (by decide) hpos hplain fold
    rw [hplain] at hcut
    rw [scanStepwise, hscan, scan_of_none hcut]
    rfl
  | some cut =>
    -- The lexeme is that of plain mode in the widened table; the tail
    -- comes afterwards.
    have hscan := scanLexeme_of_some (cursor.widen .word) .plain (by decide) (by decide)
      (hclasses ▸ hspells.widen _) hplain fold
    have htail := addTail_of_cut (cursor.widen .word) hplain fold
    rw [hplain] at hcut
    rw [scan, hcut]
    refine (scanStepwise_word_of_some hscan htail).trans ?_
    have hskipped := Lexeme.Cut.skipped_withTail cut (cursor.widen .word).classes
    simp only [Option.map_some, behind, hskipped, ← hclasses]
    rfl

/-- The cut of the rest of a line is a word with all bytes that are left.
Nothing is passed over before it, and nothing stands behind. -/
theorem rest_of_cut {cut : Lexeme.Cut} (h : cursor.cut? .rest = some cut) :
    cut.skipped = [] ∧ cut.source = cursor.remaining ∧ cut.after = [] ∧
      cut.lexeme = .word cursor.remaining := by
  unfold cut? Lexeme.cut? at h
  rw [if_pos rfl] at h
  split at h
  · cases h
  · next hleft =>
    cases h
    exact ⟨rfl, hleft.symm, rfl, rfl⟩

/-- Cutting the bytes from the cursor to the end of the line out of it
does not break off. -/
theorem cutOut_remaining (hpos : cursor.position ≤ cursor.line.length) :
    cursor.cutOut ⟨cursor.position, cursor.line.length⟩ = .ok cursor.remaining := by
  have hslice : (Span.mk cursor.position cursor.line.length).slice cursor.line.bytes
      = cursor.remaining := by
    rw [Span.slice, Line.length, List.take_length]
    rfl
  rw [cutOut, if_pos ⟨hpos, Nat.le_refl _⟩, hslice]

/-- Going to the end of the line does not break off. -/
theorem seekTo_length (cursor : Cursor) :
    cursor.seekTo cursor.line.length = .ok cursor.toEnd := by
  rw [seekTo, seek, if_pos (Nat.le_refl _)]
  rfl

/-- Finishing the token of the rest of a line at the end of the line does
not break off, and makes a token with all bytes that were left. -/
theorem finish_rest {cut : Lexeme.Cut} (hpos : cursor.position ≤ cursor.line.length)
    (h : cursor.cut? .rest = some cut) {token : Token}
    (hstart : token.span.start = cursor.position) :
    cursor.toEnd.finish token cursor.line.length
      = .ok { token with
          span := ⟨cursor.position, cursor.line.length⟩
          rawText := Utf8.decode cursor.remaining
          delimiter := 0
          delimiterClass := .delimiter } := by
  obtain ⟨hskipped, hsource, hafter, -⟩ := rest_of_cut h
  have hstop : cursor.position + cut.skipped.length + cut.source.length = cursor.line.length := by
    rw [hskipped, hsource, length_remaining, List.length_nil]
    omega
  have hend := endToken_of_cut cursor.toEnd token h rfl (by rw [hstart, hskipped]; rfl)
  rw [hstop, hskipped, hsource, hafter] at hend
  exact (finish_of_le _ _ _ (hstart ▸ hpos) (Nat.le_refl _)).trans (congrArg Except.ok hend)

/-- If bytes are left, the scan of the rest of a line does not break off,
and comes to what `Cursor.scan` comes to. -/
theorem scanRest_of_cut {cut : Lexeme.Cut} (hpos : cursor.position ≤ cursor.line.length)
    (h : cursor.cut? .rest = some cut) (fold : Bool) :
    cursor.scanRest fold = .ok (cursor.scan .rest fold) := by
  obtain ⟨hskipped, hsource, hafter, hlexeme⟩ := rest_of_cut h
  have hend : cursor.atEnd = false := by
    rw [← Bool.not_eq_true, ← remaining_eq_nil_iff, ← hsource]
    exact List.cons_ne_nil _ _
  have hstop : cursor.position + cursor.remaining.length = cursor.line.length := by
    rw [length_remaining]
    omega
  have hwidth : cut.width (Mode.rest.classes cursor.classes) = cursor.remaining.length := by
    simp [Lexeme.Cut.width, hskipped, hsource, hafter]
  rw [scanRest, hend, scan, h]
  simp only [Bool.false_eq_true, if_false, cutOut_remaining hpos, seekTo_length, bind, Except.bind]
  rw [finish_rest hpos h rfl, hwidth,
    Lexeme.Cut.scanned_of_other (by rw [hlexeme]; rfl) (by decide), hlexeme, hskipped, hsource,
    hafter, List.length_nil, Nat.add_zero, hstop, List.append_nil]
  rfl

/-- In the mode of the rest of a line the scan byte by byte does not break
off, and comes to what `Cursor.scan` comes to. -/
theorem scanStepwise_rest (hpos : cursor.position ≤ cursor.line.length) (fold : Bool) :
    cursor.scanStepwise .rest fold = .ok (cursor.scan .rest fold) := by
  cases hcut : cursor.cut? .rest with
  | none =>
    have hend : cursor.atEnd = true := by
      rwa [cut?, Lexeme.cut?_eq_none_iff, if_pos rfl, remaining_eq_nil_iff] at hcut
    have hlength : cursor.line.length = cursor.position :=
      Nat.le_antisymm (by simpa [atEnd] using hend) hpos
    rw [scan_of_none hcut, scanStepwise, scanRest, if_pos hend, toEnd, hlength]
  | some cut => exact scanRest_of_cut hpos hcut fold

/-- In every mode the scan byte by byte does not break off and comes to
what `Cursor.scan` comes to, for a cursor in its line and a table in which
bytes that spell operators alone have class operator. -/
theorem scanStepwise_eq (hpos : cursor.position ≤ cursor.line.length)
    (hspells : cursor.classes.SpellsOperators) (mode : Mode) (fold : Bool) :
    cursor.scanStepwise mode fold = .ok (cursor.scan mode fold) := by
  cases mode with
  | plain => exact scanStepwise_plain hpos hspells fold
  | real => exact scanStepwise_real hpos hspells fold
  | word => exact scanStepwise_word hpos hspells fold
  | rest => exact scanStepwise_rest hpos fold

end Modes

/-- Whatever has been done to the cursor of a line, and in whatever scopes
it is, the next scan does not break off: none of the six conditions of the
byte by byte scanner is ever violated. What it returns, and where it
leaves the cursor, is what `Cursor.scan` says. -/
theorem scanStepwise_of_run {settings : Settings} {bytes : List UInt8} {cursor : Cursor}
    (h : settings.cursor? bytes = some cursor) (tokens : List Token) (moves : List Move)
    (mode : Mode) (fold : Bool) :
    let reached := ((Moment.start cursor tokens).run moves).session.cursor
    reached.scanStepwise mode fold = .ok (reached.scan mode fold) := by
  have hsound := ((Moment.Sound.start (.of_cursor? h) tokens).run moves).session.cursor
  exact scanStepwise_eq hsound.position_le hsound.spells mode fold

/-- Three bytes of `a:12<+3` are passed over as parts of a word, which
leaves the cursor inside a number. In a scope of real numbers the rest
of it is scanned, and then the operator, from which the sign of the last
number is taken back. -/
theorem scanStepwise_of_less_plus :
    ∃ cursor, (Settings.mk true [0x3a] .plain).cursor? [0x61, 0x3a, 0x31, 0x32, 0x3c, 0x2b, 0x33]
        = some cursor ∧
      let reached := ((Moment.start cursor []).run
        [.enter .word, .act .consume, .act .consume, .act .consume, .leave, .enter .real,
          .act (.scan .plain false)]).session.cursor
      reached.position = 4 ∧
        reached.scanStepwise .plain false = .ok (reached.scan .plain false) := by
  refine ⟨_, rfl, by decide +kernel, ?_⟩
  have h : (Settings.mk true [0x3a] .plain).cursor? [0x61, 0x3a, 0x31, 0x32, 0x3c, 0x2b, 0x33]
      = some _ := rfl
  exact scanStepwise_of_run h [] _ .plain false

/-- Whatever commands a session has performed, with their scopes and their
refusals, the next scan does not break off. -/
theorem scanStepwise_of_commands {settings : Settings} {bytes : List UInt8} {cursor : Cursor}
    (h : settings.cursor? bytes = some cursor) (tokens : List Token) (commands : List Command)
    (mode : Mode) (fold : Bool) :
    let reached := ((Moment.start cursor tokens).session.after commands).cursor
    reached.scanStepwise mode fold = .ok (reached.scan mode fold) := by
  have hsound := (Moment.Sound.after (.of_cursor? h) tokens commands).cursor
  exact scanStepwise_eq hsound.position_le hsound.spells mode fold

end Cursor

end LineLexer
