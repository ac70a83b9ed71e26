import LineLexer.Proofs.HexNumber
import LineLexer.Proofs.Tables

/-!
# `LineLexer.Proofs.SourceText`: the text of a token and its bytes

What a token says can be read off the bytes of the line that it covers.
Its text is made of them, without the sign and the `h` of a number and
without quotes, and its flags tell which bytes are among them.

* `Lexeme.MadeOf`: how a lexeme is made of the bytes that it covers.
* `Lexeme.madeOf_read`, `Lexeme.madeOf_cut?`: every lexeme is.
* `Token.NumberOf`, `Token.QuotedOf`, `Token.MadeOf`: how a token, whose
  text is decoded, is made of the bytes that it covers.
* `Cursor.madeOf_of_run`: a scan returns a token that is made of the bytes
  that it covers, at every moment of the history of a line's cursor, in
  any mode and in any scopes.
-/

set_option autoImplicit false

namespace LineLexer

open Ascii Grammar Numeral

/-! ### Lexemes -/

namespace Lexeme

/-- How a lexeme of a mode is made of the bytes that it covers: an
operator and a word are all of them, a number is what is left without
its sign and its suffix markers, and a quoted word stands between two
quotes, of which the second may be missing. Only in word mode is there
something behind them. -/
inductive MadeOf (mode : Mode) : Lexeme → List UInt8 → Prop where
  | operator (op : Operator) (source : List UInt8) : MadeOf mode (.operator op source) source
  | word {source : List UInt8} (hplain : mode = .rest ∨ source.head?.any isQuote = false) :
      MadeOf mode (.word source) source
  | numeral {n : Numeral} {source : List UInt8} (htext : n.text = unsuffixed (unsigned source))
      (hnegative : n.negative = true ↔
        source.head? = some '-'.toUInt8 ∨ source.head? = some underscore)
      (hhex : n.hex = source.any isHexMarkerByte) : MadeOf mode (.numeral n) source
  | unclosed {quote : UInt8} {inside : List UInt8} (hmode : mode ≠ .rest)
      (hquote : isQuote quote = true) (hinside : quote ∉ inside) :
      MadeOf mode (.quoted inside []) (quote :: inside)
  | closed {quote : UInt8} {inside tail : List UInt8} (hmode : mode ≠ .rest)
      (hquote : isQuote quote = true) (hinside : quote ∉ inside)
      (htail : mode ≠ .word → tail = []) :
      MadeOf mode (.quoted inside tail) (quote :: (inside ++ quote :: tail))

section Read
variable {classes : ClassTable} {mode : Mode} {first : UInt8} {rest : List UInt8}

/-- A number that begins with a byte is negative exactly if the byte
spells a minus sign. -/
theorem isMinus_iff {sign bytes : List UInt8} (hbegins : Begins .real sign bytes)
    (heq : sign ++ bytes = first :: rest) :
    isMinus sign = true ↔ first = '-'.toUInt8 ∨ first = underscore := by
  cases hbegins with
  | @unsigned b rest hclass hplain =>
    obtain ⟨rfl, rfl⟩ := List.cons.inj heq
    have hminus : b ≠ '-'.toUInt8 := by
      rintro rfl
      cases hclass
    simp [isMinus, hminus, hplain]
  | @signed s b rest hsign hclass hplain =>
    obtain ⟨rfl, -⟩ := List.cons.inj heq
    have hunderscore : s ≠ underscore := by
      rintro rfl
      cases hsign
    rw [isMinus_of_isSign hsign]
    simp [hunderscore]
  | underscored hmode =>
    obtain ⟨rfl, -⟩ := List.cons.inj heq
    exact iff_of_true rfl (Or.inr rfl)

/-- The sign of a number is no hexadecimal marker, so a marker among its
bytes stands behind the sign. -/
theorem any_isHexMarkerByte_sign {sign bytes : List UInt8} (hbegins : Begins .real sign bytes) :
    sign.any isHexMarkerByte = false := by
  cases hbegins with
  | unsigned hclass hplain => rfl
  | @signed s b rest hsign hclass hplain =>
    have hs : isSignByte s = true := by simp [isSignByte, hsign]
    simp [isHexMarkerByte_eq_false (Or.inr (Or.inr hs))]
  | underscored hmode => rfl

/-- A lexeme of class digit that is read at a byte other than a delimiter
is made of the bytes that it covers, as a number is. -/
theorem madeOf_number (hdigits : classes.SpellsNumbers) (hfirst : classes first ≠ .delimiter)
    (h : (read classes mode first rest).lexeme.byteClass = .digit) :
    (read classes mode first rest).lexeme.MadeOf mode
      (first :: (read classes mode first rest).more) := by
  obtain ⟨sign, bytes, heq, hbegins, hlexeme, hsource⟩ := run_of_read_digits hdigits hfirst h
  obtain ⟨htext, hhex⟩ := text_of_run classes (mode == .real) (signed (isMinus sign)) bytes
  obtain ⟨-, hnegative, -⟩ := kept_of_run classes (mode == .real) (signed (isMinus sign)) bytes
  have htaken : _ <+: bytes :=
    ⟨_, run_append classes (mode == .real) (signed (isMinus sign)) bytes⟩
  -- The sign stands in front of what the run has taken.
  have hunsigned := unsigned_append hbegins htaken (hsource ▸ List.cons_ne_nil _ _)
  have hhead : (sign ++ _).head? = some first := congrArg List.head? hsource.symm
  rw [hlexeme, hsource]
  refine .numeral ?_ ?_ ?_
  · rw [htext, text_signed, List.nil_append, hunsigned]
  · rw [hnegative, hhead, Option.some.injEq, Option.some.injEq]
    exact isMinus_iff hbegins heq
  · rw [hhex, hex_signed, List.any_append, any_isHexMarkerByte_sign hbegins]

/-- A lexeme that is read at a quote is made of the bytes that it covers,
as a quoted word is. -/
theorem madeOf_readQuoted (hmode : mode ≠ .rest) (hquote : isQuote first = true) :
    (readQuoted classes mode first rest).lexeme.MadeOf mode
      (first :: (readQuoted classes mode first rest).more) := by
  by_cases hclosed : first ∈ rest
  · obtain ⟨inside, behind, rfl, hinside⟩ := List.eq_append_cons_of_mem hclosed
    rw [readQuoted_of_closed hinside]
    split
    · next hword => exact .closed hmode hquote hinside (absurd hword)
    · exact .closed hmode hquote hinside fun _ => rfl
  · rw [readQuoted_of_unclosed hclosed]
    exact .unclosed hmode hquote hclosed

/-- Every lexeme that is read at a byte other than a delimiter is made of
the bytes that it covers, in every mode but that of the rest of the
line. -/
theorem madeOf_read (hspells : classes.SpellsOperators) (hdigits : classes.SpellsNumbers)
    (hmode : mode ≠ .rest) (hfirst : classes first ≠ .delimiter) (rest : List UInt8) :
    (read classes mode first rest).lexeme.MadeOf mode
      (first :: (read classes mode first rest).more) := by
  cases hclass : classes first with
  | delimiter => exact absurd hclass hfirst
  | digit => exact madeOf_number hdigits hfirst (by rw [read_of_digit hclass]; rfl)
  | operator =>
    -- The byte may be the sign of a number.
    cases hsigned : beginsSigned classes first rest with
    | true =>
      refine madeOf_number hdigits hfirst ?_
      cases rest with
      | nil => simp [beginsSigned] at hsigned
      | cons second behind =>
        rw [read_of_operator hclass, readOperator_of_signed hsigned]
        rfl
    | false =>
      obtain ⟨op, length, hread⟩ := hspells.exists_read? hclass
        ((rest.take 1).filter fun b => classes b == .operator)
      rw [read_of_operator hclass, readOperator_of_not_signed hsigned hread]
      exact .operator op _
  | other =>
    cases hquote : isQuote first with
    | true =>
      rw [read_of_quote hclass hquote]
      exact madeOf_readQuoted hmode hquote
    | false =>
      rw [read_of_word hclass hquote]
      exact .word (Or.inr hquote)

end Read

/-- The lexeme of a cut is made of the bytes that the cut takes for it, in
every mode. -/
theorem madeOf_cut? {classes : ClassTable} {mode : Mode} {bytes : List UInt8} {cut : Cut}
    (hspells : classes.SpellsOperators) (hdigits : classes.SpellsNumbers)
    (h : cut? classes mode bytes = some cut) : cut.lexeme.MadeOf mode cut.source := by
  by_cases hmode : mode = .rest
  · unfold cut? at h
    rw [if_pos hmode] at h
    split at h
    · cases h
    · cases h
      exact .word (Or.inl hmode)
  · obtain ⟨-, hfirst, hread⟩ := read_of_cut? hmode h
    have hmade := madeOf_read hspells hdigits hmode hfirst (cut.more ++ cut.after)
    rw [hread] at hmade
    exact hmade

end Lexeme

/-! ### Tokens -/

/-- What the token of a number says of the bytes that it covers. Its text
drops the sign and every `h`. Its flags tell whether the sign is a minus
sign and whether there is a hexadecimal marker. -/
structure Token.NumberOf (token : Token) (capitals : Bool) (source : List UInt8) : Prop where
  text : token.text = Utf8.decode (folded capitals (unsuffixed (unsigned source)))
  negative : token.flags.negative = true ↔
    source.head? = some '-'.toUInt8 ∨ source.head? = some underscore
  hex : token.flags.hex = true ↔ ∃ b ∈ source, isHexMarkerByte b = true

/-- What the token of a quoted word says of the bytes that it covers. Its
text drops the quotes, and what stands behind the second quote is read as
text on its own. Only in word mode can something stand there. -/
inductive Token.QuotedOf (token : Token) (mode : Mode) (fold : Bool) : List UInt8 → Prop where
  | unclosed {quote : UInt8} {inside : List UInt8} (hinside : quote ∉ inside)
      (htext : token.text = Utf8.decode (folded (mode.folds fold) inside)) :
      QuotedOf token mode fold (quote :: inside)
  | closed {quote : UInt8} {inside tail : List UInt8} (hinside : quote ∉ inside)
      (htail : mode ≠ .word → tail = [])
      (htext : token.text = Utf8.decode (folded (mode.folds fold) inside)
        ++ Utf8.decode (folded (mode.folds fold) tail)) :
      QuotedOf token mode fold (quote :: (inside ++ quote :: tail))

/-- How a token that was scanned in a mode is made of the bytes that it
covers. Letters are in capitals before the bytes are read as text. -/
structure Token.MadeOf (token : Token) (mode : Mode) (fold : Bool) (source : List UInt8) :
    Prop where
  rawText : token.rawText = Utf8.decode source
  byteClass : token.byteClass ≠ .delimiter
  /-- An operator, and a word without quotes, keeps all bytes. -/
  text : token.byteClass = .operator ∨ token.byteClass = .other ∧ token.flags.quoted = false →
    token.text = Utf8.decode (folded (mode.folds fold) source)
  number : token.byteClass = .digit → token.NumberOf (mode.folds fold) source
  quoted : token.flags.quoted = true → token.QuotedOf mode fold source
  /-- A token is quoted exactly if it begins with a quote and is of class
  other, and was not scanned as the rest of the line. -/
  isQuoted : token.flags.quoted = true ↔
    token.byteClass = .other ∧ mode ≠ .rest ∧ source.head?.any isQuote = true

/-- If a lexeme is made of some bytes, a token with that lexeme's class,
text and flags, and with the bytes as its raw text, is made of them
too. -/
theorem Lexeme.MadeOf.token {lexeme : Lexeme} {mode : Mode} {source : List UInt8}
    (h : lexeme.MadeOf mode source) {token : Token} {fold : Bool}
    (hraw : token.rawText = Utf8.decode source) (hclass : token.byteClass = lexeme.byteClass)
    (htext : token.text = lexeme.text (mode.folds fold)) (hflags : token.flags = lexeme.flags) :
    token.MadeOf mode fold source := by
  -- What does not concern a kind of lexeme is ruled out by its class or flags.
  cases h with
  | operator op =>
    refine ⟨hraw, ?_, fun _ => htext, ?_, ?_, ?_⟩ <;>
      simp [hclass, hflags, byteClass, flags, Flags.none]
  | word hplain =>
    refine ⟨hraw, ?_, fun _ => htext, ?_, ?_, ?_⟩
    · simp [hclass, byteClass]
    · simp [hclass, byteClass]
    · simp [hflags, flags, Flags.none]
    · rcases hplain with hrest | hhead
      · simp [hflags, flags, Flags.none, hrest]
      · simp [hflags, flags, Flags.none, hhead]
  | @numeral n _ hdigits hnegative hhex =>
    have hnumber : token.NumberOf (mode.folds fold) source := by
      refine ⟨?_, ?_, ?_⟩
      · rw [htext, text, hdigits]
      · rw [hflags]
        exact hnegative
      · rw [hflags, ← List.any_eq_true, ← hhex]
        rfl
    refine ⟨hraw, ?_, ?_, fun _ => hnumber, ?_, ?_⟩ <;>
      simp [hclass, hflags, byteClass, flags]
  | @unclosed quote inside hmode hquote hinside =>
    have hempty : folded (mode.folds fold) [] = [] := ite_self []
    have hdecoded : token.text = Utf8.decode (folded (mode.folds fold) inside) := by
      rw [htext, text, hempty, Utf8.decode_nil, String.append_empty]
    refine ⟨hraw, ?_, ?_, ?_, fun _ => .unclosed hinside hdecoded, ?_⟩ <;>
      simp [hclass, hflags, byteClass, flags, hmode, hquote]
  | @closed quote inside tail hmode hquote hinside htail =>
    refine ⟨hraw, ?_, ?_, ?_, fun _ => .closed hinside htail htext, ?_⟩ <;>
      simp [hclass, hflags, byteClass, flags, hmode, hquote]

namespace Cursor

variable {cursor : Cursor} {mode : Mode} {fold : Bool} {token : Token}

/-- Where operators and numbers are spelled as they are, a scan returns
a token that is made of the bytes that it covers. -/
theorem madeOf_of_scan (hspells : cursor.classes.SpellsOperators)
    (hdigits : cursor.classes.SpellsNumbers) (h : (cursor.scan mode fold).1 = some token) :
    token.MadeOf mode fold (token.span.slice cursor.line.bytes) := by
  cases hcut : cursor.cut? mode with
  | none =>
    rw [scan, hcut] at h
    cases h
  | some cut =>
    have hmade := Lexeme.madeOf_cut? (hspells.classes mode)
      (ClassTable.lasting_spellsNumbers.classes hdigits mode) hcut
    rw [scan, hcut] at h
    cases h
    have hslice := Lexeme.Cut.slice_line hcut rfl fold
    rw [hslice]
    exact hmade.token rfl rfl rfl rfl

/-- Whatever has been done to the cursor of a line, and in whatever scopes
it is, a token that the next scan returns is made of the bytes that it
covers. Its text, its raw text and its flags can therefore be told from
the line alone. -/
theorem madeOf_of_run {settings : Settings} {bytes : List UInt8}
    (h : settings.cursor? bytes = some cursor) (tokens : List Token) (moves : List Move) :
    let reached := ((Moment.start cursor tokens).run moves).session.cursor
    (reached.scan mode fold).1 = some token →
      token.MadeOf mode fold (token.span.slice reached.line.bytes) := by
  have hsound := ((Moment.Sound.start (.of_cursor? h) tokens).run moves).session.cursor
  have hlasting := ClassTable.lasting_spellsNumbers
  have htables := (Moment.Tables.start (hlasting.of_cursor? h) tokens).run hlasting moves
  exact madeOf_of_scan hsound.spells htables.session.cursor

/-- In `x:_1hx`, with the colon pinned, two bytes are passed over and a
scope of real numbers is entered. The token of the rest has neither the
underscore nor the `h` in its text. -/
theorem madeOf_of_underscore :
    ∃ cursor, (Settings.mk true [0x3a] .plain).cursor? [0x78, 0x3a, 0x5f, 0x31, 0x68, 0x78]
        = some cursor ∧
      let reached := ((Moment.start cursor []).run
        [.enter .real, .act .consume, .act .consume]).session.cursor
      ∃ token, (reached.scan .plain false).1 = some token ∧ token.text = "1x" ∧
        token.span.slice reached.line.bytes = [0x5f, 0x31, 0x68, 0x78] ∧
        token.MadeOf .plain false (token.span.slice reached.line.bytes) := by
  have h : (Settings.mk true [0x3a] .plain).cursor? [0x78, 0x3a, 0x5f, 0x31, 0x68, 0x78]
      = some _ := rfl
  refine ⟨_, h, ?_⟩
  intro reached
  have hscan : (reached.scan .plain false).1.map
      (fun token => (token.text, token.span.slice reached.line.bytes))
        = some ("1x", [0x5f, 0x31, 0x68, 0x78]) := by
    decide +kernel
  obtain ⟨token, htoken, heq⟩ := Option.map_eq_some_iff.mp hscan
  obtain ⟨htext, hslice⟩ := Prod.mk.inj heq
  exact ⟨token, htoken, htext, hslice, madeOf_of_run h [] _ htoken⟩

/-- Whatever commands a session has performed, a token that the next scan
returns is made of the bytes that it covers. -/
theorem madeOf_of_commands {settings : Settings} {bytes : List UInt8}
    (h : settings.cursor? bytes = some cursor) (tokens : List Token) (commands : List Command) :
    let reached := ((Moment.start cursor tokens).session.after commands).cursor
    (reached.scan mode fold).1 = some token →
      token.MadeOf mode fold (token.span.slice reached.line.bytes) := by
  have hsound := Moment.Sound.after (.of_cursor? h) tokens commands
  have hlasting := ClassTable.lasting_spellsNumbers
  have htables := Moment.Tables.after hlasting (hlasting.of_cursor? h) tokens commands
  exact madeOf_of_scan hsound.cursor.spells htables.cursor

end Cursor

end LineLexer
