import LineLexer.Proofs.Covered
import LineLexer.Proofs.SelfContained
import LineLexer.Proofs.TwoRuns

/-!
# `LineLexer.Proofs.Pinned`: pinned bytes and spaces

A pinned byte is a delimiter, so one would expect the tokens of a line
to be those of the line with a space in its place. This is so except
behind a number: the look ahead of a number asks the bytes themselves
and no class table, and goes on past a pinned byte that is a digit, a
sign or a hexadecimal marker.

* `blank`: the space in place of a pinned byte.
* `cut?_blank`: a lexeme is the same before the spaces, if a number
  that a pinned byte stops is a number on a line of its own.
* `scanLine_blank_iff`: a line without quotes has the same tokens and
  diagnostics with spaces in place of pinned bytes exactly if every
  number in it is a number on a line of its own.
* `scanLine_blank_of_silent`: the tokens and diagnostics are the same if
  no pinned byte says anything to the look ahead.
-/

set_option autoImplicit false

namespace LineLexer

/-- A space in place of a pinned byte, and any other byte as it is. -/
def blank (pinned : List UInt8) (b : UInt8) : UInt8 := if b ∈ pinned then 0x20 else b

/-- The token without the byte that ended it, which may be a pinned byte
in one line and a space in the other. -/
def Token.unended (token : Token) : Token := { token with delimiter := 0 }

/-- A token without the byte that ended it, with the diagnostics that were
reported for it. -/
def Scanned.unended (scanned : Scanned) : Scanned :=
  { scanned with token := scanned.token.unended }

/-! ### Spaces in place of pinned bytes -/

section Blank
variable {pinned bytes : List UInt8} {mode : Mode}

/-- A pinned byte has the class of the space in its place. -/
theorem classes_blank (mode : Mode) (pinned : List UInt8) (b : UInt8) :
    mode.classes .standard (blank pinned b)
      = mode.classes (ClassTable.standard.pinAll pinned) b := by
  rw [Mode.classes_pinAll, blank]
  split
  · rw [Mode.classes_eq_delimiter_iff]
    decide
  · rfl

/-- A byte that is no delimiter stays in its place. -/
theorem blank_of_ne_delimiter {b : UInt8}
    (h : mode.classes (ClassTable.standard.pinAll pinned) b ≠ .delimiter) :
    blank pinned b = b := by
  rw [Mode.classes_pinAll] at h
  apply if_neg
  intro hmem
  exact h (if_pos hmem)

/-- Spaces show no more to the look ahead than the pinned bytes in whose
place they stand. -/
theorem dimmer_blank (pinned bytes : List UInt8) :
    Numeral.Dimmer (bytes.map (blank pinned)) bytes := by
  refine .map (fun b => ?_) bytes
  unfold blank
  split
  · exact Or.inr (silent_of_delimiter (by decide))
  · exact Or.inl rfl

/-- Spaces show no less to the look ahead than the pinned bytes in whose
place they stand, if no pinned byte says anything to it. -/
theorem dimmer_of_silent (h : ∀ b ∈ pinned, Silent b) (bytes : List UInt8) :
    Numeral.Dimmer bytes (bytes.map (blank pinned)) := by
  induction bytes with
  | nil => exact .nil _
  | cons b rest ih =>
    by_cases hb : b ∈ pinned
    · exact .silent (h b hb) _ _
    · rw [List.map_cons, blank, if_neg hb]
      exact ih.cons b

/-- Putting spaces in place of pinned bytes puts no NUL into a line. -/
theorem zero_not_mem_blank (h : 0 ∉ bytes) : 0 ∉ bytes.map (blank pinned) := by
  intro hmem
  obtain ⟨b, hb, heq⟩ := List.mem_map.mp hmem
  unfold blank at heq
  split at heq
  · cases heq
  · exact h (heq ▸ hb)

end Blank

namespace Lexeme
variable {pinned : List UInt8} {mode : Mode} {bytes : List UInt8} {cut : Cut}

/-- Spaces may stand in place of pinned bytes behind a lexeme: they are
delimiters too, and show nothing to the look ahead. -/
theorem Exchange.blank (mode : Mode) (pinned after : List UInt8) :
    Exchange (mode.classes (ClassTable.standard.pinAll pinned)) (mode.classes .standard) after
      (after.map (blank pinned)) := by
  refine ⟨dimmer_blank pinned after, ?_⟩
  intro b rest heq
  cases after with
  | nil => cases heq
  | cons c behind =>
    cases heq
    by_cases hdel : mode.classes (ClassTable.standard.pinAll pinned) c = .delimiter
    · exact Or.inl ((classes_blank ..).trans hdel)
    · have hkept := blank_of_ne_delimiter hdel
      refine Or.inr ⟨behind, by rw [hkept], ?_, dimmer_blank pinned behind⟩
      rw [← classes_blank, hkept, hkept]

/-- Two lexemes of the same bytes that make the same token, with the
same diagnostics. -/
structure Agrees (mode : Mode) (lexeme other : Lexeme) : Prop where
  text : ∀ fold, lexeme.text fold = other.text fold
  byteClass : lexeme.byteClass = other.byteClass
  flags : lexeme.flags = other.flags
  intValue? : ∀ text, lexeme.intValue? text = other.intValue? text
  realValue? : ∀ text int, lexeme.realValue? mode text int = other.realValue? mode text int

/-- A lexeme makes the same token as itself. -/
theorem Agrees.refl (mode : Mode) (lexeme : Lexeme) : Agrees mode lexeme lexeme :=
  ⟨fun _ => rfl, rfl, rfl, fun _ => rfl, fun _ _ => rfl⟩

/-- Numbers that take the same bytes make the same token if they have
the same flags. -/
theorem Agrees.of_parallel (mode : Mode) {p s : Numeral} {left : List UInt8}
    (h : Numeral.Parallel p s left [])
    (hflags : (Lexeme.numeral p).flags = (Lexeme.numeral s).flags) :
    Agrees mode (numeral s) (numeral p) := by
  have hreal : p.isReal = s.isReal := congrArg Flags.real hflags
  refine ⟨fun fold => ?_, rfl, hflags.symm, fun text => (h.value? hreal text).symm,
    fun text int => ?_⟩
  · rw [Lexeme.text, Lexeme.text, Numeral.text, Numeral.text, h.kept]
  · cases mode <;> simp [Lexeme.realValue?, h.realValue? text int]

/-- With lexemes that agree, and spaces in place of pinned bytes behind
them, two cuts differ in the byte that ends the token alone. -/
theorem Cut.scanned_blank (cut : Cut) {lexeme : Lexeme} (h : Agrees mode lexeme cut.lexeme)
    (fold : Bool) (start : Nat) :
    (({ cut with skipped := [], after := cut.after.map (LineLexer.blank pinned), lexeme } :
        Cut).scanned (mode.classes .standard) mode fold start).unended
      = (cut.scanned (mode.classes (ClassTable.standard.pinAll pinned)) mode fold
          start).unended := by
  have hclass : (mode.classes .standard).classOf ∘ LineLexer.blank pinned
      = (mode.classes (ClassTable.standard.pinAll pinned)).classOf :=
    funext fun b => classes_blank mode pinned b
  simp only [scanned, Scanned.unended, Token.unended, h.text, h.byteClass, h.flags, h.intValue?,
    h.realValue?, List.head?_map, Option.map_map, hclass]
  rfl

/-- A number begins with a byte of class digit, or with a sign before
one. -/
theorem class_of_number {classes : ClassTable} {first : UInt8} {rest : List UInt8}
    (hfirst : classes first ≠ .delimiter)
    (h : (read classes mode first rest).lexeme.byteClass = .digit) :
    classes first = .digit ∨
      (classes first = .operator ∧ beginsSigned classes first rest = true) := by
  cases hclass : classes first with
  | delimiter => exact absurd hclass hfirst
  | digit => exact Or.inl rfl
  | operator =>
    refine Or.inr ⟨rfl, ?_⟩
    rw [read_of_operator hclass] at h
    -- Without a digit behind its sign the lexeme is an operator or a word.
    by_contra hsigned
    unfold readOperator at h
    split at h
    · exact hsigned ‹_›
    · split at h
      · cases h
      · cases h
  | other =>
    cases hquote : Ascii.isQuote first with
    | true =>
      rw [read_of_quote hclass hquote] at h
      unfold readQuoted at h
      dsimp only at h
      split at h
      · cases h
      · split at h <;> cases h
    | false =>
      rw [read_of_word hclass hquote] at h
      cases h

/-- A number that is read from the same bytes in two places is read by
two runs over them. -/
theorem parallel_of_read {classes others : ClassTable} {first : UInt8} {more after : List UInt8}
    {lexeme other : Lexeme} (hfirst : classes first ≠ .delimiter)
    (hagree : ∀ b ∈ first :: more, others b = classes b)
    (h : read classes mode first (more ++ after) = ⟨lexeme, more, after⟩)
    (hdigit : lexeme.byteClass = .digit)
    (hother : read others mode first more = ⟨other, more, []⟩) :
    ∃ p s, lexeme = .numeral p ∧ other = .numeral s ∧ Numeral.Parallel p s after [] := by
  have hsame : others first = classes first := hagree first List.mem_cons_self
  rcases class_of_number hfirst (by rw [h]; exact hdigit) with hclass | ⟨hclass, hsigned⟩
  · rw [read_of_digit hclass] at h
    rw [read_of_digit (hsame.trans hclass)] at hother
    obtain ⟨hlexeme, hmore, -⟩ := Reading.mk.inj h
    obtain ⟨hlexeme', hmore', -⟩ := Reading.mk.inj hother
    exact ⟨_, _, hlexeme.symm, hlexeme'.symm, Numeral.parallel_run (.refl ..)
      (fun b hb => hagree b (List.mem_cons_of_mem _ hb)) hmore hmore'⟩
  · rw [read_of_operator hclass] at h
    rw [read_of_operator (hsame.trans hclass)] at hother
    cases more with
    | nil =>
      -- The digit behind the sign is one of the number's bytes.
      cases after with
      | nil => simp [beginsSigned] at hsigned
      | cons second behind =>
        rw [List.nil_append] at h hsigned
        rw [readOperator_of_signed hsigned] at h
        cases (Reading.mk.inj h).2.1
    | cons second taken =>
      rw [List.cons_append] at h hsigned
      have hsigned' : beginsSigned others first (second :: taken) = true := by
        simpa [beginsSigned, hagree second (by simp)] using hsigned
      rw [readOperator_of_signed hsigned] at h
      rw [readOperator_of_signed hsigned'] at hother
      obtain ⟨hlexeme, hmore, -⟩ := Reading.mk.inj h
      obtain ⟨hlexeme', hmore', -⟩ := Reading.mk.inj hother
      exact ⟨_, _, hlexeme.symm, hlexeme'.symm, Numeral.parallel_run (.refl ..)
        (fun b hb => hagree b (by simp [hb])) (List.cons.inj hmore).2 (List.cons.inj hmore').2⟩

/-- If the bytes of a token make that token on a line of their own, the
lexeme there covers all of them and has the same flags. -/
theorem cut?_of_alone {classes : ClassTable} {fold : Bool} {start : Nat}
    (h : (scannedFrom (mode.classes .standard) mode fold 0 cut.source).map Scanned.token
      = [(cut.scanned classes mode fold start).token.alone]) :
    ∃ other, cut? (mode.classes .standard) mode cut.source
        = some { cut with skipped := [], after := [], lexeme := other } ∧
      other.flags = cut.lexeme.flags := by
  cases hcut : cut? (mode.classes .standard) mode cut.source with
  | none =>
    rw [scannedFrom_of_none hcut] at h
    cases h
  | some found =>
    rw [scannedFrom_of_some hcut, List.map_cons] at h
    have htoken := (List.cons.inj h).1
    have hspan : Span.mk (0 + found.skipped.length)
          (0 + found.skipped.length + found.source.length)
        = Span.alone ⟨start, start + cut.source.length⟩ := congrArg Token.span htoken
    have hflags : found.lexeme.flags = cut.lexeme.flags := congrArg Token.flags htoken
    rw [Span.alone, Nat.add_sub_cancel_left, Span.mk.injEq] at hspan
    -- The token covers the whole line, so nothing stands before or behind it.
    have hskipped : found.skipped = [] := List.eq_nil_of_length_eq_zero (by omega)
    have hparts := Cut.bytes_of_cut? hcut
    have hlength := congrArg List.length hparts
    rw [hskipped, List.nil_append, List.length_append] at hlength
    have hafter : found.after = [] := List.eq_nil_of_length_eq_zero (by omega)
    rw [hskipped, hafter, List.nil_append, List.append_nil] at hparts
    obtain ⟨hfirst, hmore⟩ := List.cons.inj hparts
    have hfound : found = { cut with skipped := [], after := [], lexeme := found.lexeme } := by
      rw [← hfirst, ← hmore]
      calc found = ⟨found.skipped, found.first, found.more, found.after, found.lexeme⟩ := rfl
        _ = _ := by rw [hskipped, hafter]
    exact ⟨found.lexeme, congrArg some hfound, hflags⟩

/-- A lexeme that no quote begins covers no pinned byte. -/
theorem blank_of_source (hmode : mode ≠ .rest)
    (h : cut? (mode.classes (ClassTable.standard.pinAll pinned)) mode bytes = some cut)
    (hquote : Ascii.isQuote cut.first = false) :
    ∀ b ∈ cut.source, LineLexer.blank pinned b = b := by
  intro b hb
  obtain ⟨-, hfirst, hread⟩ := read_of_cut? hmode h
  have hplain : cut.lexeme.flags.quoted = false := by
    by_contra hquoted
    rw [Bool.not_eq_false] at hquoted
    have := (read_of_quoted hfirst (by rw [hread]; exact hquoted)).2.1
    rw [hquote] at this
    cases this
  exact blank_of_ne_delimiter (ne_delimiter_of_read hfirst (by rw [hread]; exact hplain) b
    (by rw [hread]; exact hb))

/-- A lexeme is the same with spaces in place of pinned bytes behind
it. If it is a number and the look ahead sees less in the spaces, its
bytes must make the same token on a line of their own. -/
theorem cut?_blank (hmode : mode ≠ .rest)
    (h : cut? (mode.classes (ClassTable.standard.pinAll pinned)) mode bytes = some cut)
    (hquote : Ascii.isQuote cut.first = false)
    (hkept : ∀ b ∈ cut.source, LineLexer.blank pinned b = b)
    (halone : cut.lexeme.byteClass = .digit →
      Numeral.Dimmer cut.after (cut.after.map (LineLexer.blank pinned)) ∨
        ∃ other, cut? (mode.classes .standard) mode cut.source
            = some { cut with skipped := [], after := [], lexeme := other } ∧
          other.flags = cut.lexeme.flags) :
    ∃ other, Agrees mode other cut.lexeme ∧
      cut? (mode.classes .standard) mode (cut.source ++ cut.after.map (LineLexer.blank pinned))
        = some { cut with skipped := [], after := cut.after.map (LineLexer.blank pinned),
                          lexeme := other } := by
  have hagree : ∀ b ∈ cut.source, mode.classes .standard b
      = mode.classes (ClassTable.standard.pinAll pinned) b := by
    intro b hb
    rw [← classes_blank, hkept b hb]
  by_cases hshown : cut.lexeme.byteClass = .digit →
      Numeral.Dimmer cut.after (cut.after.map (LineLexer.blank pinned)) ∨
        ¬ Numeral.StopsAtPin (mode.classes (ClassTable.standard.pinAll pinned)) cut.after
  · -- Nothing is hidden from the look ahead, so the lexeme is the same.
    have hskipped : ∀ b ∈ ([] : List UInt8), mode.classes .standard b = .delimiter :=
      List.forall_mem_nil _
    exact ⟨cut.lexeme, .refl .., cut?_exchange hmode (mode.classes_pinAll_cases .standard pinned) h
      hskipped hagree
      (.blank mode pinned cut.after) hshown fun hfirst => by simp [hquote] at hfirst⟩
  · -- A pinned byte has stopped the number, and a space would stop it as well.
    obtain ⟨hdigit, hnot⟩ := Classical.not_imp.mp hshown
    rw [not_or, not_not] at hnot
    obtain ⟨hdim, c, hc, hdel, -⟩ := hnot
    obtain ⟨other, hother, hflags⟩ := (halone hdigit).resolve_left hdim
    have hspace : ∀ b ∈ (cut.after.map (LineLexer.blank pinned)).head?,
        ByteClass.ofByte b = .delimiter := by
      intro b hb
      rw [List.head?_map, Option.mem_def.mp hc] at hb
      cases hb
      exact (Mode.classes_eq_delimiter_iff mode .standard _).mp ((classes_blank ..).trans hdel)
    have hsource := cut?_source hmode (fun _ => rfl) hother hspace
      fun hfirst => by simp [hquote] at hfirst
    obtain ⟨-, hfirst, hread⟩ := read_of_cut? hmode h
    have hread' := (read_of_cut? hmode hother).2.2
    dsimp only at hread'
    rw [List.append_nil] at hread'
    obtain ⟨p, s, hp, rfl, hparallel⟩ := parallel_of_read hfirst hagree hread hdigit hread'
    rw [hp] at hflags ⊢
    exact ⟨.numeral s, .of_parallel mode hparallel hflags.symm, hsource⟩

end Lexeme

/-! ### Whole lines -/

section Lines
variable {pinned : List UInt8} {mode : Mode} {start : Nat} {line bytes : List UInt8}

/-- The bytes of a token stay as they are where pinned bytes become
spaces, in a line without quotes. -/
theorem blank_slice (hmode : mode ≠ .rest) (hline : line.drop start = bytes)
    (hquotes : ∀ b ∈ bytes, Ascii.isQuote b = false) {fold : Bool} :
    ∀ s ∈ scannedFrom (mode.classes (ClassTable.standard.pinAll pinned)) mode fold start bytes,
      s.token.span.slice (line.map (blank pinned)) = s.token.span.slice line := by
  fun_induction scannedFrom (mode.classes (ClassTable.standard.pinAll pinned)) mode fold start
    bytes with
  | case1 start bytes h =>
    intro s hs
    cases hs
  | case2 start bytes cut h first ih =>
    have hparts := Lexeme.Cut.bytes_of_cut? h
    intro s hs
    rcases List.mem_cons.mp hs with rfl | hs
    · have hkept := Lexeme.blank_of_source hmode h
        (hquotes cut.first (by rw [← hparts]; simp [Lexeme.Cut.source]))
      have hslice : (cut.scanned (mode.classes (ClassTable.standard.pinAll pinned)) mode fold
          first).token.span.slice line = cut.source := Lexeme.Cut.slice_line h hline fold
      rw [Span.slice, ← List.map_take, ← List.map_drop]
      rw [Span.slice] at hslice ⊢
      rw [hslice, List.map_congr_left hkept, List.map_id']
    · exact ih (Lexeme.Cut.drop_line h hline)
        (fun b hb => hquotes b (by rw [← hparts]; simp [hb])) s hs

/-- With spaces in place of pinned bytes, bytes without quotes are
scanned to the same tokens, if the look ahead sees no less in the
spaces or every number stands alone. -/
theorem scannedFrom_blank (hmode : mode ≠ .rest) (hline : line.drop start = bytes)
    (hquotes : ∀ b ∈ bytes, Ascii.isQuote b = false) (fold : Bool)
    (halone : (∀ rest : List UInt8, Numeral.Dimmer rest (rest.map (blank pinned))) ∨
      ∀ s ∈ scannedFrom (mode.classes (ClassTable.standard.pinAll pinned)) mode fold start bytes,
        s.token.byteClass = .digit →
          (scannedFrom (mode.classes .standard) mode fold 0 (s.token.span.slice line)).map
            Scanned.token = [s.token.alone]) :
    (scannedFrom (mode.classes .standard) mode fold start (bytes.map (blank pinned))).map
        Scanned.unended
      = (scannedFrom (mode.classes (ClassTable.standard.pinAll pinned)) mode fold start
          bytes).map Scanned.unended := by
  fun_induction scannedFrom (mode.classes (ClassTable.standard.pinAll pinned)) mode fold start
    bytes with
  | case1 start bytes h =>
    rw [Lexeme.cut?_eq_none_iff, if_neg hmode] at h
    rw [scannedFrom_of_none]
    rw [Lexeme.cut?_eq_none_iff, if_neg hmode]
    intro b hb
    obtain ⟨c, hc, rfl⟩ := List.mem_map.mp hb
    exact (classes_blank ..).trans (h c hc)
  | case2 start bytes cut h first ih =>
    have hparts := Lexeme.Cut.bytes_of_cut? h
    have hquote : Ascii.isQuote cut.first = false :=
      hquotes cut.first (by rw [← hparts]; simp [Lexeme.Cut.source])
    have hkept := Lexeme.blank_of_source hmode h hquote
    have hskipped : ∀ b ∈ cut.skipped.map (blank pinned),
        mode.classes .standard b = .delimiter := by
      intro b hb
      obtain ⟨c, hc, rfl⟩ := List.mem_map.mp hb
      exact (classes_blank ..).trans ((Lexeme.read_of_cut? hmode h).1 c hc)
    -- Spaces change what stands before and behind the lexeme, but not its bytes.
    have hbytes : bytes.map (blank pinned)
        = cut.skipped.map (blank pinned) ++ (cut.source ++ cut.after.map (blank pinned)) := by
      rw [← hparts, List.append_assoc, List.map_append, List.map_append,
        List.map_congr_left hkept, List.map_id']
    obtain ⟨other, hagrees, hcut⟩ := Lexeme.cut?_blank hmode h hquote hkept (by
      intro hdigit
      rcases halone with hdim | halone
      · exact Or.inl (hdim cut.after)
      · have hhead := halone _ List.mem_cons_self hdigit
        have hslice : (cut.scanned (mode.classes (ClassTable.standard.pinAll pinned)) mode fold
          first).token.span.slice line = cut.source := Lexeme.Cut.slice_line h hline fold
        rw [hslice] at hhead
        exact Or.inr (Lexeme.cut?_of_alone hhead))
    have hmore := ih (Lexeme.Cut.drop_line h hline)
      (fun b hb => hquotes b (by rw [← hparts]; simp [hb]))
      (halone.imp_right fun halone s hs => halone s (List.mem_cons_of_mem _ hs))
    rw [hbytes, scannedFrom_delimiters_append hmode hskipped, List.length_map,
      scannedFrom_of_some hcut, List.map_cons, List.map_cons]
    exact congrArg₂ List.cons (Lexeme.Cut.scanned_blank cut hagrees fold first) hmore

/-- If what has been scanned is the same but for the bytes that end the
tokens, so are the tokens, and the diagnostics are the same. -/
theorem unended_eq_of_scanned {scanned other : List Scanned}
    (h : scanned.map Scanned.unended = other.map Scanned.unended) :
    (scanned.map Scanned.token).map Token.unended = (other.map Scanned.token).map Token.unended ∧
      scanned.flatMap Scanned.diagnostics = other.flatMap Scanned.diagnostics := by
  constructor
  · have htokens := congrArg (List.map Scanned.token) h
    rw [List.map_map, List.map_map] at htokens ⊢
    exact htokens
  · have hdiagnostics := congrArg (List.flatMap Scanned.diagnostics) h
    rw [List.flatMap_map, List.flatMap_map] at hdiagnostics
    exact hdiagnostics

end Lines

section Theorems
variable {bytes : List UInt8} {mode : Mode}

/-- A line without quotes has the same tokens, apart from the bytes
that end them, and the same diagnostics with spaces in place of pinned
bytes exactly if every number in it is that number on a line of its own
with nothing pinned. -/
theorem scanLine_blank_iff (hmode : mode ≠ .rest) (fold : Bool) (pinned : List UInt8)
    (hquotes : ∀ b ∈ bytes.takeWhile (· != 0), Ascii.isQuote b = false) :
    let line := bytes.takeWhile (· != 0)
    let scanned := scanLine bytes ⟨fold, pinned, mode⟩
    let blanked := scanLine (line.map (blank pinned)) ⟨fold, [], mode⟩
    (blanked.1.map Token.unended = scanned.1.map Token.unended ∧ blanked.2 = scanned.2) ↔
      ∀ token ∈ scanned.1, token.byteClass = .digit →
        (scanLine (token.span.slice line) ⟨fold, [], mode⟩).1 = [token.alone] := by
  intro line scanned blanked
  have hzero : 0 ∉ line := zero_not_mem_takeWhile bytes
  have hslice (span : Span) := scanLine_of_pinned_nil (span.zero_not_mem_slice hzero) fold mode
  have hscanned : scanned
      = ((scannedFrom (mode.classes (ClassTable.standard.pinAll pinned)) mode fold 0 line).map
          Scanned.token,
        (scannedFrom (mode.classes (ClassTable.standard.pinAll pinned)) mode fold 0 line).flatMap
          Scanned.diagnostics) := scanLine_eq bytes ⟨fold, pinned, mode⟩
  have hblanked : blanked = _ := scanLine_of_pinned_nil (zero_not_mem_blank hzero) fold mode
  constructor
  · rintro ⟨htokens, -⟩ token htoken -
    have hmem := List.mem_map_of_mem (f := Token.unended) htoken
    rw [← htokens, hblanked] at hmem
    rw [hscanned] at htoken
    obtain ⟨s, hs, rfl⟩ := List.mem_map.mp htoken
    obtain ⟨token', htoken', hunended⟩ := List.mem_map.mp hmem
    obtain ⟨s', hs', rfl⟩ := List.mem_map.mp htoken'
    have hspan : s'.token.span = s.token.span :=
      show s'.token.unended.span = s.token.unended.span by rw [hunended]
    have halone : s'.token.alone = s.token.alone :=
      show s'.token.unended.alone = s.token.unended.alone by rw [hunended]
    -- With nothing pinned every token is what its bytes make on a line of their own.
    have hsame := scannedFrom_slice hmode (fun _ => rfl) List.drop_zero fold s' hs'
    rw [hspan, blank_slice hmode List.drop_zero hquotes s hs] at hsame
    rw [hslice s.token.span, hsame, ← halone]
    rfl
  · intro halone
    have hsame := scannedFrom_blank hmode List.drop_zero hquotes fold
      (Or.inr fun s hs hdigit => by
        have hs' : s.token ∈ scanned.1 := by
          rw [hscanned]
          exact List.mem_map_of_mem hs
        have htoken := halone s.token hs' hdigit
        rwa [hslice s.token.span] at htoken)
    rw [hscanned, hblanked]
    exact unended_eq_of_scanned hsame

/-- The line `5,-3` with the comma pinned: both numbers are numbers on a
line of their own. -/
theorem scanLine_blank_comma :
    (scanLine ([0x35, 0x2c, 0x2d, 0x33].map (blank [0x2c])) ⟨true, [], .plain⟩).1.map
          Token.unended
        = (scanLine [0x35, 0x2c, 0x2d, 0x33] ⟨true, [0x2c], .plain⟩).1.map Token.unended ∧
      (scanLine ([0x35, 0x2c, 0x2d, 0x33].map (blank [0x2c])) ⟨true, [], .plain⟩).2
        = (scanLine [0x35, 0x2c, 0x2d, 0x33] ⟨true, [0x2c], .plain⟩).2 := by
  have hquotes : ∀ b ∈ List.takeWhile (· != 0) [0x35, 0x2c, 0x2d, 0x33],
      Ascii.isQuote b = false := by decide +kernel
  exact (scanLine_blank_iff (by decide) true [0x2c] hquotes).mpr (by decide +kernel)

/-- The line `1ah` with its `h` pinned is one token, whose `a` is taken
for a hexadecimal digit because of the `h`. With a space for the `h` it
is two. -/
theorem scanLine_blank_ne :
    (scanLine ([0x31, 0x61, 0x68].map (blank [0x68])) ⟨true, [], .plain⟩).1.map Token.unended
        ≠ (scanLine [0x31, 0x61, 0x68] ⟨true, [0x68], .plain⟩).1.map Token.unended ∧
      (scanLine [0x31, 0x61, 0x68] ⟨true, [0x68], .plain⟩).1.map Token.text = ["1A"] ∧
      (scanLine ([0x31, 0x61, 0x68].map (blank [0x68])) ⟨true, [], .plain⟩).1.map Token.text
        = ["1", "A"] := by
  decide +kernel

/-- A line without quotes has the same tokens and diagnostics with
spaces in place of pinned bytes if no pinned byte is a hexadecimal
digit, its marker, a sign or an underscore. -/
theorem scanLine_blank_of_silent (hmode : mode ≠ .rest) (fold : Bool) {pinned : List UInt8}
    (hsilent : ∀ b ∈ pinned, Silent b)
    (hquotes : ∀ b ∈ bytes.takeWhile (· != 0), Ascii.isQuote b = false) :
    let scanned := scanLine bytes ⟨fold, pinned, mode⟩
    let blanked := scanLine ((bytes.takeWhile (· != 0)).map (blank pinned)) ⟨fold, [], mode⟩
    blanked.1.map Token.unended = scanned.1.map Token.unended ∧ blanked.2 = scanned.2 := by
  intro scanned blanked
  have hscanned : scanned = _ := scanLine_eq bytes ⟨fold, pinned, mode⟩
  have hblanked : blanked = _ :=
    scanLine_of_pinned_nil (zero_not_mem_blank (zero_not_mem_takeWhile bytes)) fold mode
  have hsame := scannedFrom_blank hmode List.drop_zero hquotes fold
    (Or.inl (dimmer_of_silent hsilent))
  rw [hscanned, hblanked]
  exact unended_eq_of_scanned hsame

end Theorems

end LineLexer
