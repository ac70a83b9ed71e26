import LineLexer.Proofs.Characters
import LineLexer.Proofs.Partition

/-!
# `LineLexer.Proofs.Intact`: no character of a line is cut in two

Scanning looks at single bytes. In a line that spells characters it
still stops between two characters only. Every byte that is not ASCII
has class other, so what is passed over in front of a lexeme is ASCII,
and behind it stand an ASCII byte or the end of the line. No byte of a
token is therefore replaced when the token is read as text.

* `ClassTable.IsAscii`: a class table in which this is so.
* `Lexeme.SpelledBy`: how the bytes that a lexeme covers make its text.
* `Lexeme.whole_read`, `Lexeme.isText_of_cut?`: a lexeme covers whole
  characters.
* `Token.Intact`, `Cursor.Call.Intact`: what tokens and scans of such a
  line are like.
* `Cursor.intact_scan`, `Cursor.intact_scanAll`: one scan is, and so is
  every scan of any list of requests.
* `Cursor.intact_of_cursor?`: every scan from the start of a line that
  spells characters cuts none in two, with any ASCII bytes pinned.
-/

set_option autoImplicit false

namespace LineLexer

open Ascii Utf8

/-! ### Class tables -/

/-- Every byte that is not ASCII has class other in the table. It can then
begin nothing but a word. -/
def ClassTable.IsAscii (table : ClassTable) : Prop := ∀ b, table b ≠ .other → b < 0x80

/-- Pinning ASCII bytes keeps class other for all bytes that are not
ASCII, in every mode. -/
theorem ClassTable.isAscii_pinAll {pinned : List UInt8} (hpinned : ∀ b ∈ pinned, b < 0x80)
    (mode : Mode) : (mode.classes (standard.pinAll pinned)).IsAscii := by
  intro b hb
  rw [Mode.classes_pinAll] at hb
  split at hb
  · next hmem => exact hpinned b hmem
  · have hstandard : ∀ b : UInt8, ¬ b < 0x80 →
        ByteClass.ofByte b = .other ∧ ¬ (b = '.'.toUInt8 ∨ b = '_'.toUInt8) :=
      forall_byte (by decide +kernel)
    by_contra hhigh
    exact hb (classes_of_other (hstandard b hhigh).1 (hstandard b hhigh).2)

/-! ### Lexemes -/

namespace Lexeme

/-- How the bytes that a lexeme covers make it: an operator and a word
are all of them, a number is made of ASCII bytes, and a quoted word
stands between quotes, of which the second may be missing at the end
of the line. -/
inductive SpelledBy : Lexeme → List UInt8 → Prop where
  | operator (op : Operator) (source : List UInt8) : SpelledBy (.operator op source) source
  | word (source : List UInt8) : SpelledBy (.word source) source
  | numeral {n : Numeral} {source : List UInt8} (htext : ∀ b ∈ n.text, b < 0x80)
      (hsource : ∀ b ∈ source, b < 0x80) : SpelledBy (.numeral n) source
  | unclosed {quote : UInt8} {inside : List UInt8} (hquote : quote < 0x80)
      (hinside : IsText inside) : SpelledBy (.quoted inside []) (quote :: inside)
  | closed {quote : UInt8} {inside tail : List UInt8} (hquote : quote < 0x80)
      (hinside : IsText inside) (htail : IsText tail) :
      SpelledBy (.quoted inside tail) (quote :: (inside ++ quote :: tail))

/-- The text of a lexeme has as many U+FFFD as the bytes that it
covers. -/
theorem SpelledBy.replacements_text {lexeme : Lexeme} {source : List UInt8}
    (h : lexeme.SpelledBy source) (hsource : IsText source) (fold : Bool) :
    replacements (lexeme.text fold) = replacements (decode source) := by
  cases h with
  | operator op => exact replacements_folded hsource fold
  | word => exact replacements_folded hsource fold
  | numeral htext hascii =>
    rw [replacements_of_ascii hascii]
    exact replacements_of_ascii (folded_ascii fold htext)
  | unclosed hquote hinside =>
    rw [text, replacements_append, replacements_folded hinside, replacements_folded .nil,
      replacements_cons hquote, replacements_nil, Nat.add_zero]
  | closed hquote hinside htail =>
    rw [text, replacements_append, replacements_folded hinside, replacements_folded htail,
      replacements_cons hquote, decode_append hinside, replacements_append,
      replacements_cons hquote]

section Read
variable {classes : ClassTable} {mode : Mode} {first : UInt8} {rest : List UInt8}

/-- A reading covers whole characters and leaves whole characters, and
its lexeme is made of those that it covers. -/
structure Reading.Whole (reading : Reading) (first : UInt8) : Prop where
  source : IsText (first :: reading.more)
  after : IsText reading.after
  spelled : reading.lexeme.SpelledBy (first :: reading.more)

/-- What is left behind bytes of class other spells characters, as they
do. -/
theorem isText_of_takeWhile (hclasses : classes.IsAscii) (front : List UInt8) {bytes : List UInt8}
    (h : IsText (front ++ bytes)) :
    IsText (front ++ bytes.takeWhile fun b => classes b == .other) ∧
      IsText (bytes.dropWhile fun b => classes b == .other) := by
  rw [← List.takeWhile_append_dropWhile (p := fun b => classes b == .other) (l := bytes),
    ← List.append_assoc] at h
  refine h.of_append_head ?_
  intro b hb
  have hstop := List.head?_dropWhile_not (fun b => classes b == .other) bytes
  rw [hb] at hstop
  exact hclasses b (by simpa using hstop)

/-- A lexeme of ASCII bytes covers whole characters. -/
theorem whole_of_ascii {reading : Reading}
    (h : IsText (first :: reading.more ++ reading.after))
    (hascii : ∀ b ∈ first :: reading.more, b < 0x80)
    (hspelled : reading.lexeme.SpelledBy (first :: reading.more)) : reading.Whole first :=
  ⟨.of_ascii hascii, h.of_ascii_append hascii, hspelled⟩

/-- A number covers whole characters and leaves whole characters. All of
its bytes are ASCII. -/
theorem whole_readNumeral {n : Numeral} (hn : n.Unsigned)
    (front : List UInt8) (hfront : ∀ b ∈ first :: front, b < 0x80)
    (h : IsText (first :: front ++ rest)) :
    Reading.Whole ⟨(readNumeral classes mode n rest).lexeme,
      front ++ (readNumeral classes mode n rest).more,
      (readNumeral classes mode n rest).after⟩ first := by
  have htaken := Numeral.ascii_of_run classes (mode == .real) n rest
  have hsource := List.forall_mem_append.mpr ⟨hfront, htaken⟩
  have hunsigned := Numeral.unsigned_run hn classes (mode == .real) rest
  refine whole_of_ascii ?_ hsource (.numeral ?_ hsource)
  · show IsText ((first :: front) ++ (readNumeral classes mode n rest).more ++ _)
    rw [List.append_assoc, readNumeral_append]
    exact h
  · exact hunsigned.ascii

/-- A word covers whole characters and leaves whole characters. -/
theorem whole_readWord (hclasses : classes.IsAscii) (h : IsText (first :: rest)) :
    (readWord classes first rest).Whole first := by
  obtain ⟨hsource, hafter⟩ := isText_of_takeWhile hclasses [first] h
  exact ⟨hsource, hafter, .word _⟩

/-- A quoted word covers whole characters and leaves whole characters,
with its closing quote or without. -/
theorem whole_readQuoted (hclasses : classes.IsAscii) {quote : UInt8} (hquote : quote < 0x80)
    (h : IsText (quote :: rest)) : (readQuoted classes mode quote rest).Whole quote := by
  have hrest := h.of_cons hquote
  by_cases hmem : quote ∈ rest
  · obtain ⟨inside, behind, rfl, hinside⟩ := List.eq_append_cons_of_mem hmem
    obtain ⟨htext, hbehind⟩ := hrest.of_append_cons hquote
    have hone : IsText [quote] := .of_ascii (List.forall_mem_singleton.mpr hquote)
    have hsource : ∀ tail, IsText tail → IsText (quote :: (inside ++ quote :: tail)) := by
      intro tail htail
      exact hone.append (htext.append (hone.append htail))
    rw [readQuoted_of_closed hinside]
    split
    · -- In word mode a tail goes on up to a byte that is not of class other.
      obtain ⟨htail, hafter⟩ := isText_of_takeWhile hclasses [] hbehind
      exact ⟨hsource _ htail, hafter, .closed hquote htext htail⟩
    · exact ⟨hsource _ .nil, hbehind, .closed hquote htext .nil⟩
  · rw [readQuoted_of_unclosed hmem]
    exact ⟨h, .nil, .unclosed hquote hrest⟩

/-- What a byte of class operator begins covers whole characters and
leaves whole characters. -/
theorem whole_readOperator (hclasses : classes.IsAscii) (hfirst : first < 0x80)
    (h : IsText (first :: rest)) : (readOperator classes mode first rest).Whole first := by
  cases hsigned : beginsSigned classes first rest with
  | true =>
    cases rest with
    | nil => simp [beginsSigned] at hsigned
    | cons second behind =>
      -- The digit behind the sign has another class than other, so it is ASCII.
      have hsecond : second < 0x80 := by
        simp only [beginsSigned, List.head?_cons, Option.any_some, Bool.and_eq_true,
          beq_iff_eq] at hsigned
        exact hclasses second (by simp [hsigned.2.1])
      rw [readOperator_of_signed hsigned]
      refine whole_readNumeral (Numeral.unsigned_startSigned first second) [second] ?_ h
      exact List.forall_mem_cons.mpr ⟨hfirst, List.forall_mem_singleton.mpr hsecond⟩
  | false =>
    cases hread : Operator.read? (operatorBytes classes first rest) with
    | none =>
      rw [readOperator_of_none hsigned hread]
      exact whole_readWord hclasses h
    | some found =>
      obtain ⟨op, length⟩ := found
      rw [readOperator_of_not_signed hsigned hread]
      refine whole_of_ascii ?_ ?_ (.operator _ _)
      · show IsText (first :: (rest.take (length - 1) ++ rest.drop (length - 1)))
        rwa [List.take_append_drop]
      · -- An operator has one or two bytes, each of class operator.
        obtain ⟨hpos, htwo, -⟩ := Operator.read?_length hread
        obtain rfl | rfl : length = 1 ∨ length = 2 := by omega
        · exact List.forall_mem_singleton.mpr hfirst
        · obtain ⟨second, behind, rfl, hsecond⟩ := eq_cons_of_read?_two hread
          have hascii : second < 0x80 := hclasses second (by simp [hsecond])
          exact List.forall_mem_cons.mpr ⟨hfirst, List.forall_mem_singleton.mpr hascii⟩

/-- Every lexeme covers whole characters and leaves whole characters, if
the bytes that it is read from spell some. -/
theorem whole_read (hclasses : classes.IsAscii) (hfirst : classes first ≠ .delimiter)
    (h : IsText (first :: rest)) : (read classes mode first rest).Whole first := by
  cases hclass : classes first with
  | delimiter => exact absurd hclass hfirst
  | digit =>
    have hascii : first < 0x80 := hclasses first (by simp [hclass])
    rw [read_of_digit hclass]
    exact whole_readNumeral (Numeral.unsigned_start first) []
      (List.forall_mem_singleton.mpr hascii) h
  | operator =>
    rw [read_of_operator hclass]
    exact whole_readOperator hclasses (hclasses first (by simp [hclass])) h
  | other =>
    cases hquote : isQuote first with
    | true =>
      have hascii : ∀ b : UInt8, isQuote b = true → b < 0x80 := forall_byte (by decide +kernel)
      rw [read_of_quote hclass hquote]
      exact whole_readQuoted hclasses (hascii first hquote) h
    | false =>
      rw [read_of_word hclass hquote]
      exact whole_readWord hclasses h

end Read

/-- The parts of a cut spell characters if the bytes that it was made
from do. -/
theorem isText_of_cut? {classes : ClassTable} {mode : Mode} {bytes : List UInt8} {cut : Cut}
    (hclasses : classes.IsAscii) (h : IsText bytes) (hcut : cut? classes mode bytes = some cut) :
    IsText cut.skipped ∧ IsText cut.source ∧ IsText cut.after ∧
      cut.lexeme.SpelledBy cut.source := by
  by_cases hmode : mode = .rest
  · subst hmode
    unfold cut? at hcut
    rw [if_pos rfl] at hcut
    split at hcut
    · cases hcut
    · cases hcut
      exact ⟨.nil, h, .nil, .word _⟩
  · obtain ⟨hskipped, hfirst, hread⟩ := read_of_cut? hmode hcut
    have hascii : ∀ b ∈ cut.skipped, b < 0x80 := by
      intro b hb
      exact hclasses b (by simp [hskipped b hb])
    rw [← Cut.bytes_of_cut? hcut, List.append_assoc] at h
    have hrest : IsText (cut.first :: (cut.more ++ cut.after)) := h.of_ascii_append hascii
    have hwhole : (read classes mode cut.first (cut.more ++ cut.after)).Whole cut.first :=
      whole_read hclasses hfirst hrest
    rw [hread] at hwhole
    exact ⟨.of_ascii hascii, hwhole.source, hwhole.after, hwhole.spelled⟩

/-- The bytes that are passed over behind a lexeme spell characters, and
so do the bytes that are left behind them. -/
theorem isText_of_passed {classes : ClassTable} {cut : Cut} (hclasses : classes.IsAscii)
    (hafter : IsText cut.after) :
    ∃ passed left, cut.after = passed ++ left ∧ IsText passed ∧ IsText left ∧
      cut.width classes = cut.skipped.length + cut.source.length + passed.length := by
  unfold Cut.width
  dsimp only
  split
  · next hended =>
    cases h : cut.after with
    | nil => simp [h] at hended
    | cons b left =>
      rw [h] at hafter hended
      have hb : b < 0x80 := by
        simp only [List.head?_cons, Option.any_some, Bool.and_eq_true, beq_iff_eq] at hended
        exact hclasses b (by simp [hended.2])
      exact ⟨[b], left, rfl, .of_ascii (List.forall_mem_singleton.mpr hb),
        hafter.of_cons hb, rfl⟩
  · exact ⟨[], cut.after, rfl, .nil, hafter, rfl⟩

end Lexeme

/-! ### Scans -/

/-- A token covers whole characters of a line, and its texts are made of
them. `fold` says whether its letters were to become capitals. -/
structure Token.Intact (line : String) (fold : Bool) (token : Token) : Prop where
  start : (String.Pos.Raw.mk token.span.start).IsValid line
  stop : (String.Pos.Raw.mk token.span.stop).IsValid line
  /-- The raw text of a token is what the line has where the token
  stands. -/
  rawText : encode token.rawText = token.span.slice (encode line)
  part : token.rawText.toList <:+: line.toList
  /-- The text of a word outside quotes is what the line has there, in
  capitals if asked for. -/
  text : token.byteClass = .other → token.flags.quoted = false →
    encode token.text = folded fold (token.span.slice (encode line))
  /-- Every U+FFFD in the text of a token stands in the line. -/
  replaced : replacements token.text = replacements token.rawText

/-- The token of a cut is intact, if the parts of the line before the
lexeme, in it and behind it spell characters. -/
theorem Lexeme.Cut.intact_scanned {cut : Cut} {line : String} {before : List UInt8}
    (hline : encode line = before ++ cut.source ++ cut.after) (hbefore : IsText before)
    (hsource : IsText cut.source) (hafter : IsText cut.after)
    (hspelled : cut.lexeme.SpelledBy cut.source) (classes : ClassTable) (mode : Mode)
    (fold : Bool) :
    (cut.scanned classes mode fold before.length).token.Intact line (mode.folds fold) where
  start := by
    rw [List.append_assoc] at hline
    exact IsText.isValid hline hbefore (hsource.append hafter)
  stop := by
    have hvalid := IsText.isValid hline (hbefore.append hsource) hafter
    rwa [List.length_append] at hvalid
  rawText := by
    rw [hline]
    exact hsource.encode_decode.trans (Span.slice_append ..).symm
  part := by
    have hparts : line = decode before ++ decode cut.source ++ decode cut.after := by
      rw [← decode_append hbefore, ← decode_append (hbefore.append hsource), ← hline, decode_encode]
    exact ⟨_, _, by rw [hparts, String.toList_append, String.toList_append]; rfl⟩
  text := by
    intro hclass hquoted
    have hslice : Span.slice ⟨before.length, before.length + cut.source.length⟩ (encode line)
        = cut.source := by
      rw [hline, Span.slice_append]
    show encode (cut.lexeme.text (mode.folds fold))
      = folded _ (Span.slice ⟨before.length, before.length + cut.source.length⟩ (encode line))
    rw [hslice]
    replace hclass : cut.lexeme.byteClass = .other := hclass
    replace hquoted : cut.lexeme.flags.quoted = false := hquoted
    -- Operators and numbers have another class, and quoted words are quoted.
    generalize cut.lexeme = lexeme at hspelled hclass hquoted
    generalize cut.source = source at hspelled hsource
    cases hspelled with
    | word => exact (hsource.folded _).encode_decode
    | operator => cases hclass
    | numeral => cases hclass
    | unclosed => cases hquoted
    | closed => cases hquoted
  replaced := hspelled.replacements_text hsource _

/-- A scan stops between two characters of a line, and a token that it
returns is intact. -/
structure Cursor.Call.Intact (line : String) (call : Call) : Prop where
  position : (String.Pos.Raw.mk call.after).IsValid line
  token : ∀ token, call.token = some token → token.Intact line (call.mode.folds call.fold)

namespace Cursor

/-- A cursor that stands between two characters of a line, with a class
table that tells ASCII bytes from others. -/
structure AtCharacter (line : String) (cursor : Cursor) : Prop where
  line : cursor.line.bytes = encode line
  classes : ∀ mode : Mode, (mode.classes cursor.classes).IsAscii
  front : IsText (cursor.line.bytes.take cursor.position)
  remaining : IsText cursor.remaining

section Scan
variable {line : String} {cursor : Cursor} {mode : Mode} {cut : Lexeme.Cut}

/-- A cursor is between two characters where both parts of its line
spell some. -/
theorem AtCharacter.of_append {next : Cursor} (h : AtCharacter line cursor)
    (hline : next.line = cursor.line) (hclasses : next.classes = cursor.classes)
    {xs ys : List UInt8} (hbytes : cursor.line.bytes = xs ++ ys) (hxs : IsText xs)
    (hys : IsText ys) (hposition : next.position = xs.length) :
    AtCharacter line next ∧ (String.Pos.Raw.mk next.position).IsValid line := by
  refine ⟨⟨hline ▸ h.line, hclasses ▸ h.classes, ?_, ?_⟩, ?_⟩
  · rw [hline, hbytes, hposition, List.take_left]
    exact hxs
  · rw [Cursor.remaining, hline, hbytes, hposition, List.drop_left]
    exact hys
  · rw [hposition]
    exact IsText.isValid (h.line ▸ hbytes) hxs hys

/-- A scan that has nothing left to cut off stops at the end of the line,
which is between characters. -/
theorem intact_of_none (h : AtCharacter line cursor) (hcut : cursor.cut? mode = none)
    (fold : Bool) :
    AtCharacter line (cursor.scan mode fold).2 ∧
      Call.Intact line ⟨mode, fold, cursor.position, (cursor.scan mode fold).1,
        (cursor.scan mode fold).2.position⟩ := by
  have hscan : cursor.scan mode fold = (none, cursor.toEnd) := by rw [scan, hcut]
  have htext : IsText cursor.line.bytes := h.line ▸ .of_encode line
  rw [hscan]
  have hline : cursor.toEnd.line = cursor.line := rfl
  obtain ⟨hend, hvalid⟩ :=
    h.of_append hline rfl (List.append_nil cursor.line.bytes).symm htext .nil rfl
  refine ⟨hend, hvalid, ?_⟩
  intro token htoken
  cases htoken

/-- A token that is cut off is intact, and the scan stops between two
characters behind it. -/
theorem intact_of_cut (h : AtCharacter line cursor) (hcut : cursor.cut? mode = some cut)
    (fold : Bool) :
    AtCharacter line (cursor.scan mode fold).2 ∧
      Call.Intact line ⟨mode, fold, cursor.position, (cursor.scan mode fold).1,
        (cursor.scan mode fold).2.position⟩ := by
  obtain ⟨hskipped, hsource, hafter, hspelled⟩ :=
    Lexeme.isText_of_cut? (h.classes mode) h.remaining hcut
  obtain ⟨passed, left, hsplit, hpassed, hleft, hwidth⟩ :=
    Lexeme.isText_of_passed (h.classes mode) hafter
  -- The line is what has been read, and then the parts of the cut.
  obtain ⟨front, hfront, hbytes, hlength⟩ : ∃ front, IsText front ∧
      cursor.line.bytes = front ++ cut.skipped ++ cut.source ++ cut.after ∧
      front.length = cursor.position := by
    have hremaining := Lexeme.Cut.bytes_of_cut? hcut
    refine ⟨cursor.line.bytes.take cursor.position, h.front, ?_, ?_⟩
    · rw [List.append_assoc, List.append_assoc, ← List.append_assoc cut.skipped, hremaining]
      exact cursor.remaining_append.symm
    · -- Something is left, so the position lies in the line.
      have hpos : 0 < cursor.remaining.length := by
        rw [← hremaining, Lexeme.Cut.source, List.length_append, List.length_append,
          List.length_cons]
        omega
      rw [length_remaining, Line.length] at hpos
      rw [List.length_take]
      omega
  have htoken := Lexeme.Cut.intact_scanned (h.line ▸ hbytes) (hfront.append hskipped) hsource hafter
    hspelled (mode.classes cursor.classes) mode fold
  rw [List.length_append, hlength] at htoken
  have hposition : (cursor.scan mode fold).2.position
      = (front ++ cut.skipped ++ cut.source ++ passed).length := by
    rw [scan, hcut]
    dsimp only
    rw [hwidth]
    simp only [List.length_append, hlength]
    omega
  -- What is passed over is at most one delimiter more, which is ASCII.
  have htext := ((hfront.append hskipped).append hsource).append hpassed
  rw [hsplit, ← List.append_assoc] at hbytes
  obtain ⟨hnext, hvalid⟩ :=
    h.of_append (line_scan ..) (classes_scan ..) hbytes htext hleft hposition
  refine ⟨hnext, hvalid, ?_⟩
  rw [scan, hcut]
  rintro token ⟨⟩
  exact htoken

/-- Any scan from between two characters stops between two, and the
token that it returns is intact. -/
theorem intact_scan (h : AtCharacter line cursor) (mode : Mode) (fold : Bool) :
    AtCharacter line (cursor.scan mode fold).2 ∧
      Call.Intact line ⟨mode, fold, cursor.position, (cursor.scan mode fold).1,
        (cursor.scan mode fold).2.position⟩ := by
  cases hcut : cursor.cut? mode with
  | none => exact intact_of_none h hcut fold
  | some cut => exact intact_of_cut h hcut fold

end Scan

/-! ### Any list of requests -/

/-- Every scan of a list of requests is intact if the first one starts
between two characters. The proof is by induction on the requests, with
one scan as its step. -/
theorem intact_scanAll {line : String} {cursor : Cursor} (h : AtCharacter line cursor)
    (requests : List (Mode × Bool)) :
    ∀ call ∈ (cursor.scanAll requests).1, call.Intact line := by
  induction requests generalizing cursor with
  | nil =>
    intro call hcall
    rw [scanAll] at hcall
    cases hcall
  | cons request requests ih =>
    obtain ⟨mode, fold⟩ := request
    obtain ⟨hnext, hcall⟩ := intact_scan h mode fold
    show ∀ call ∈ ⟨mode, fold, cursor.position, (cursor.scan mode fold).1,
      (cursor.scan mode fold).2.position⟩ :: ((cursor.scan mode fold).2.scanAll requests).1, _
    exact List.forall_mem_cons.mpr ⟨hcall, ih hnext⟩

/-- A line that spells characters is scanned without cutting one in
two, from its start, with any ASCII bytes pinned and in any modes. The
line ends at the first NUL of the text. -/
theorem intact_of_cursor? {settings : Settings} {text : String} {cursor : Cursor}
    (h : settings.cursor? (encode text) = some cursor)
    (hpinned : ∀ b ∈ settings.pinned, b < 0x80) (requests : List (Mode × Bool)) :
    ∀ call ∈ (cursor.scanAll requests).1,
      call.Intact (String.ofList (text.toList.takeWhile (· != '\x00'))) := by
  obtain ⟨fresh, hfresh, rfl⟩ := Option.map_eq_some_iff.mp h
  obtain ⟨line, hline, rfl⟩ := Option.map_eq_some_iff.mp hfresh
  have hbytes : line.bytes = encode (String.ofList (text.toList.takeWhile (· != '\x00'))) := by
    rw [Line.bytes_of_ofBytes? hline, encode_eq, takeWhile_encodeChars, encode_eq,
      String.toList_ofList]
  have htext : IsText line.bytes := by
    rw [hbytes]
    exact .of_encode _
  have hstart : AtCharacter (String.ofList (text.toList.takeWhile (· != '\x00')))
      ((ofLine line).pinAll settings.pinned) :=
    ⟨hbytes, ClassTable.isAscii_pinAll hpinned, .nil, htext⟩
  exact intact_scanAll hstart requests

/-- Three scans of `é:"ü;"§ 5`, in three modes and with the colon
pinned. -/
theorem intact_of_umlauts : ∃ cursor,
    (Settings.mk true [0x3a] .plain).cursor? (encode "é:\"ü;\"§ 5") = some cursor ∧
      let calls := (cursor.scanAll [(.plain, true), (.word, false), (.rest, true)]).1
      (tokensOf calls).map Token.span = [⟨0, 2⟩, ⟨3, 10⟩, ⟨11, 12⟩] ∧
      ∀ call ∈ calls,
        call.Intact (String.ofList ("é:\"ü;\"§ 5".toList.takeWhile (· != '\x00'))) := by
  have h : (Settings.mk true [0x3a] .plain).cursor? (encode "é:\"ü;\"§ 5") = some _ := rfl
  refine ⟨_, h, by decide +kernel, ?_⟩
  exact intact_of_cursor? h (by decide +kernel) _

end Cursor

end LineLexer
