import LineLexer.Proofs.Joined

/-!
# `LineLexer.Proofs.SelfContained`: a token on a line of its own

A scanner that looks ahead could make of the same bytes another token
where other bytes follow. With nothing pinned it does not: the bytes
that a token covers give the same token when they stand alone, and so
a line can be written again with one space between its tokens.

* `Token.alone`: a token without its place and without the byte that
  ended it.
* `cut?_source`: the bytes that a lexeme covers are that lexeme, before
  no bytes and before a delimiter.
* `scannedFrom_slice`: the bytes of every token are scanned to that
  token on a line of their own.
* `scannedFrom_spaced`: the bytes of all tokens with spaces between
  them are scanned to the same tokens, which cover just these bytes.
* `scanLine_spaced`: scanning a line again from its tokens, with spaces
  between them, makes the same tokens.
-/

set_option autoImplicit false

namespace LineLexer

/-! ### What is left of a token without its place -/

/-- The span of the same bytes on a line of their own, where they begin at
zero. -/
def Span.alone (span : Span) : Span := ⟨0, span.stop - span.start⟩

/-- The token of the same bytes on a line of their own: it has its
place there, and the end of the line ends it. -/
def Token.alone (token : Token) : Token :=
  { token with span := token.span.alone, delimiter := 0, delimiterClass := .delimiter }

/-- The diagnostic about the same bytes on a line of their own. Only its
span is different. -/
def Diagnostic.alone (diagnostic : Diagnostic) : Diagnostic :=
  { diagnostic with span := diagnostic.span.alone }

/-- The token and diagnostics of the same bytes on a line of their
own. -/
def Scanned.alone (scanned : Scanned) : Scanned :=
  ⟨scanned.token.alone, scanned.diagnostics.map Diagnostic.alone⟩

namespace Lexeme
variable {classes : ClassTable} {mode : Mode} {bytes : List UInt8} {cut : Cut}

/-- The delimiters before a cut, the bytes behind it and its place are
all that its token and diagnostics have to do with the line. -/
theorem Cut.scanned_alone (cut : Cut) (classes others : ClassTable) (mode : Mode) (fold : Bool)
    (start : Nat) :
    (cut.scanned classes mode fold start).alone
      = ({ cut with skipped := [], after := [] } : Cut).scanned others mode fold 0 := by
  have hspan : (Span.mk start (start + cut.source.length)).alone = ⟨0, 0 + cut.source.length⟩ := by
    rw [Span.alone, Nat.add_sub_cancel_left, Nat.zero_add]
  have hfault : Diagnostic.alone ∘ Diagnostic.ofFault ⟨start, start + cut.source.length⟩
      = Diagnostic.ofFault ⟨0, 0 + cut.source.length⟩ := by
    funext fault
    rw [← hspan]
    rfl
  simp only [scanned, Scanned.alone, Token.alone, List.map_map, hfault, hspan]
  rfl

/-- The bytes that a lexeme covers are that lexeme again, before a
delimiter or at the end of a line. -/
theorem cut?_source (hmode : mode ≠ .rest)
    (hclasses : ∀ b, classes b = mode.classes .standard b) (h : cut? classes mode bytes = some cut)
    {other : List UInt8} (hother : ∀ b ∈ other.head?, ByteClass.ofByte b = .delimiter)
    (hclosed : Ascii.isQuote cut.first = true → cut.after = [] → other = []) :
    cut? classes mode (cut.source ++ other) = some { cut with skipped := [], after := other } := by
  have hex : Exchange classes classes cut.after other := by
    refine ⟨?_, ?_⟩
    · cases other with
      | nil => exact .nil _
      | cons b rest => exact .silent (silent_of_delimiter (hother b rfl)) rest _
    · intro b rest heq
      rw [heq] at hother
      rw [hclasses, Mode.classes_eq_delimiter_iff]
      exact Or.inl (hother b rfl)
  -- With nothing pinned no number is stopped by a pin.
  have hpin : ¬ Numeral.StopsAtPin classes cut.after := by
    rintro ⟨b, -, hdel, hstandard⟩
    rw [hclasses, Mode.classes_eq_delimiter_iff] at hdel
    exact hstandard hdel
  have hclasses' (b : UInt8) : classes b = .delimiter ∨ classes b = mode.classes .standard b :=
    Or.inr (hclasses b)
  have hquote : Ascii.isQuote cut.first = true → cut.first ∈ cut.more ∨ other = [] := by
    intro hquote
    by_contra hopen
    have hafter := (Cut.quoted_of_unclosed hmode hclasses' h hquote fun hmem =>
      hopen (Or.inl hmem)).2
    exact hopen (Or.inr (hclosed hquote hafter))
  have hskipped : ∀ b ∈ ([] : List UInt8), classes b = .delimiter := List.forall_mem_nil _
  exact cut?_exchange hmode hclasses' h hskipped (fun b _ => rfl) hex
    (fun _ => Or.inr hpin) hquote

end Lexeme

/-! ### Tokens with one space between them -/

/-- The spans of pieces of a line, the first of which begins at the
position `start`, with one byte between any two. -/
def layout : Nat → List (List UInt8) → List Span
  | _, [] => []
  | start, piece :: pieces =>
    ⟨start, start + piece.length⟩ :: layout (start + piece.length + 1) pieces

/-- The spans are those of the pieces in the line that they make, with
the byte `b` between any two. -/
theorem slice_layout (b : UInt8) (before : List UInt8) (pieces : List (List UInt8)) :
    (layout before.length pieces).map (fun span => span.slice (before ++ [b].intercalate pieces))
      = pieces := by
  -- What stands before the pieces grows by a piece and a byte between two.
  induction pieces generalizing before with
  | nil => rfl
  | cons piece pieces ih =>
    rw [layout, List.map_cons]
    cases pieces with
    | nil =>
      have hslice := Span.slice_append before piece []
      rw [List.append_nil] at hslice
      rw [List.intercalate_singleton, hslice]
      rfl
    | cons next pieces =>
      have hmore := ih (before ++ piece ++ [b])
      simp only [List.length_append, List.length_singleton] at hmore
      have hslice := Span.slice_append before piece ([b] ++ [b].intercalate (next :: pieces))
      rw [← List.append_assoc] at hslice
      rw [List.intercalate_cons_cons, ← List.append_assoc, ← List.append_assoc, hslice, hmore]

/-- A byte of a line made of pieces is one of theirs or stands between
them. -/
theorem mem_of_mem_intercalate {b c : UInt8} {pieces : List (List UInt8)}
    (h : c ∈ [b].intercalate pieces) : c = b ∨ ∃ piece ∈ pieces, c ∈ piece := by
  induction pieces with
  | nil => cases h
  | cons piece pieces ih =>
    cases pieces with
    | nil =>
      rw [List.intercalate_singleton] at h
      exact Or.inr ⟨piece, List.mem_cons_self, h⟩
    | cons next pieces =>
      rw [List.intercalate_cons_cons, List.append_assoc] at h
      rcases List.mem_append.mp h with hpiece | hmore
      · exact Or.inr ⟨piece, List.mem_cons_self, hpiece⟩
      rcases List.mem_cons.mp hmore with rfl | hmore
      · exact Or.inl rfl
      rcases ih hmore with heq | ⟨other, hother, hc⟩
      · exact Or.inl heq
      · exact Or.inr ⟨other, List.mem_cons_of_mem _ hother, hc⟩

section Spaced
variable {classes : ClassTable} {mode : Mode} {start : Nat} {line bytes : List UInt8}

/-- The bytes that a lexeme covers are scanned to its token, and what
stands behind them to that which it is scanned to there. -/
theorem scannedFrom_source {cut : Lexeme.Cut} (hmode : mode ≠ .rest)
    (hclasses : ∀ b, classes b = mode.classes .standard b)
    (h : Lexeme.cut? classes mode bytes = some cut) {other : List UInt8}
    (hother : ∀ b ∈ other.head?, ByteClass.ofByte b = .delimiter)
    (hclosed : Ascii.isQuote cut.first = true → cut.after = [] → other = []) (fold : Bool)
    (place : Nat) :
    scannedFrom classes mode fold place (cut.source ++ other)
      = ({ cut with skipped := [], after := other } : Lexeme.Cut).scanned classes mode fold place
        :: scannedFrom classes mode fold (place + cut.source.length) other := by
  rw [scannedFrom_of_some (Lexeme.cut?_source hmode hclasses h hother hclosed)]
  rfl

/-- The bytes that a lexeme covers are scanned to its token alone. -/
theorem scannedFrom_only {cut : Lexeme.Cut} (hmode : mode ≠ .rest)
    (hclasses : ∀ b, classes b = mode.classes .standard b)
    (h : Lexeme.cut? classes mode bytes = some cut) (fold : Bool) (place : Nat) :
    scannedFrom classes mode fold place cut.source
      = [({ cut with skipped := [], after := [] } : Lexeme.Cut).scanned classes mode fold
          place] := by
  have hnone : ∀ b ∈ ([] : List UInt8).head?, ByteClass.ofByte b = .delimiter := by
    intro b hb
    cases hb
  have hlast := scannedFrom_source hmode hclasses h hnone (fun _ _ => rfl) fold place
  rwa [List.append_nil, scannedFrom_nil] at hlast

/-- The bytes of every token are scanned to that token on a line of
their own. -/
theorem scannedFrom_slice (hmode : mode ≠ .rest)
    (hclasses : ∀ b, classes b = mode.classes .standard b) (hline : line.drop start = bytes)
    (fold : Bool) : ∀ s ∈ scannedFrom classes mode fold start bytes,
      scannedFrom classes mode fold 0 (s.token.span.slice line) = [s.alone] := by
  fun_induction scannedFrom classes mode fold start bytes with
  | case1 start bytes h =>
    intro s hs
    cases hs
  | case2 start bytes cut h first ih =>
    intro s hs
    rcases List.mem_cons.mp hs with rfl | hs
    · rw [Lexeme.Cut.slice_line h hline fold, scannedFrom_only hmode hclasses h,
        Lexeme.Cut.scanned_alone _ classes classes]
    · exact ih (Lexeme.Cut.drop_line h hline) s hs

/-- The bytes of tokens with spaces between them are scanned to the
same tokens, each from its own bytes. -/
theorem scannedFrom_spaced (hmode : mode ≠ .rest)
    (hclasses : ∀ b, classes b = mode.classes .standard b) (hline : line.drop start = bytes)
    (fold : Bool) (place : Nat) :
    let pieces := (scannedFrom classes mode fold start bytes).map
      fun s => s.token.span.slice line
    let again := scannedFrom classes mode fold place ([0x20].intercalate pieces)
    again.map (fun s => s.token.span) = layout place pieces ∧
      again.map Scanned.alone = (scannedFrom classes mode fold start bytes).map Scanned.alone := by
  -- The induction follows the lexemes of the old line. The place of each in the new line is free,
  -- since the delimiters before it are not the same there.
  fun_induction scannedFrom classes mode fold start bytes generalizing place with
  | case1 start bytes h => simp [layout]
  | case2 start bytes cut h first ih =>
    have hslice : (cut.scanned classes mode fold first).token.span.slice line = cut.source :=
      Lexeme.Cut.slice_line h hline fold
    have hmore := ih (Lexeme.Cut.drop_line h hline)
    have halone (other : List UInt8) :
        (({ cut with skipped := [], after := other } : Lexeme.Cut).scanned classes mode fold
          place).alone = (cut.scanned classes mode fold first).alone := by
      rw [Lexeme.Cut.scanned_alone _ classes classes, Lexeme.Cut.scanned_alone _ classes classes]
    cases htail : scannedFrom classes mode fold (first + cut.source.length) cut.after with
    | nil =>
      -- The last token stands at the end of the new line.
      simp only [List.map_cons, List.map_nil, hslice, List.intercalate_singleton,
        scannedFrom_only hmode hclasses h, halone]
      exact ⟨rfl, trivial⟩
    | cons s tail =>
      rw [htail] at hmore
      obtain ⟨hspans, hsame⟩ := hmore (place + cut.source.length + 1)
      generalize hpieces : (s :: tail).map (fun s => s.token.span.slice line) = pieces
        at hspans hsame
      have hne : pieces ≠ [] := by simp [← hpieces]
      -- The space behind the token belongs to no token.
      have hspace : ∀ b ∈ [0x20], classes b = .delimiter := by
        intro b hb
        rw [List.mem_singleton.mp hb, hclasses, Mode.classes_eq_delimiter_iff]
        decide
      have hfirst : scannedFrom classes mode fold place
          (cut.source ++ 0x20 :: [0x20].intercalate pieces) = _ :=
        scannedFrom_source hmode hclasses h (fun b hb => by cases hb; decide)
          (fun _ hafter => by rw [hafter, scannedFrom_nil] at htail; cases htail) fold place
      have hskip := scannedFrom_delimiters_append hmode hspace fold (place + cut.source.length)
        ([0x20].intercalate pieces)
      rw [List.singleton_append, List.length_singleton] at hskip
      rw [hskip] at hfirst
      simp only [List.map_cons, hslice] at hpieces ⊢
      rw [hpieces, List.intercalate_cons_of_ne_nil hne, List.append_assoc, List.singleton_append,
        hfirst, List.map_cons, List.map_cons, hspans, hsame, halone]
      exact ⟨rfl, rfl⟩

end Spaced

/-- A line written again with one space between its tokens has the
same tokens, apart from their places and the bytes that end them, and
diagnostics with the same texts. Each token covers its own bytes and
no others. -/
theorem scanLine_spaced (bytes : List UInt8) {mode : Mode} (hmode : mode ≠ .rest) (fold : Bool) :
    let line := bytes.takeWhile (· != 0)
    let scanned := scanLine bytes ⟨fold, [], mode⟩
    let pieces := scanned.1.map fun token => token.span.slice line
    let again := scanLine ([0x20].intercalate pieces) ⟨fold, [], mode⟩
    again.1.map Token.span = layout 0 pieces ∧
      again.1.map (fun token => token.span.slice ([0x20].intercalate pieces)) = pieces ∧
      again.1.map Token.alone = scanned.1.map Token.alone ∧
      again.2.map Diagnostic.text = scanned.2.map Diagnostic.text := by
  intro line scanned pieces again
  have hzero : 0 ∉ [0x20].intercalate pieces := by
    intro hmem
    rcases mem_of_mem_intercalate hmem with heq | ⟨piece, hpiece, hmem⟩
    · cases heq
    · obtain ⟨token, -, rfl⟩ := List.mem_map.mp hpiece
      exact Span.zero_not_mem_slice (zero_not_mem_takeWhile bytes) token.span hmem
  have hscanned : scanned
      = ((scannedFrom (mode.classes .standard) mode fold 0 line).map Scanned.token,
        (scannedFrom (mode.classes .standard) mode fold 0 line).flatMap Scanned.diagnostics) := by
    rw [← Settings.classes_of_pinned_nil fold mode]
    exact scanLine_eq bytes ⟨fold, [], mode⟩
  -- Neither line has a NUL, so each is scanned as a whole.
  have hagain : again = _ := scanLine_of_pinned_nil hzero fold mode
  have hpieces : pieces = (scannedFrom (mode.classes .standard) mode fold 0 line).map
      fun s => s.token.span.slice line := by
    show scanned.1.map _ = _
    rw [hscanned, List.map_map]
    rfl
  have hspaced := scannedFrom_spaced hmode (fun _ => rfl) (List.drop_zero : line.drop 0 = line)
    fold 0
  rw [← hpieces] at hspaced
  obtain ⟨hspans, hsame⟩ := hspaced
  have hlayout : again.1.map Token.span = layout 0 pieces := by
    rw [hagain, List.map_map]
    exact hspans
  have hslices := slice_layout 0x20 [] pieces
  rw [List.length_nil, ← hlayout, List.map_map] at hslices
  refine ⟨hlayout, hslices, ?_, ?_⟩
  · have htokens := congrArg (List.map Scanned.token) hsame
    rw [List.map_map, List.map_map] at htokens
    rw [hagain, hscanned, List.map_map, List.map_map]
    exact htokens
  · have htexts := congrArg (List.flatMap fun s => s.diagnostics.map Diagnostic.text) hsame
    simp only [List.flatMap_map, Scanned.alone, List.map_map] at htexts
    rw [hagain, hscanned, List.map_flatMap, List.map_flatMap]
    exact htexts

/-- The tokens `5` and `-3` of the line `5-3`, with a space between
them. -/
theorem scanLine_spaced_five_minus_three :
    let scanned := scanLine [0x35, 0x2d, 0x33] ⟨true, [], .plain⟩
    let pieces := scanned.1.map fun token =>
      token.span.slice (List.takeWhile (· != 0) [0x35, 0x2d, 0x33])
    let again := scanLine ([0x20].intercalate pieces) ⟨true, [], .plain⟩
    again.1.map Token.span = layout 0 pieces ∧
      again.1.map (fun token => token.span.slice ([0x20].intercalate pieces)) = pieces ∧
      again.1.map Token.alone = scanned.1.map Token.alone ∧
      again.2.map Diagnostic.text = scanned.2.map Diagnostic.text :=
  scanLine_spaced [0x35, 0x2d, 0x33] (by decide) true

end LineLexer
