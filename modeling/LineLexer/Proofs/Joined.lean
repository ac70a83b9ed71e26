import LineLexer.Proofs.Whole

/-!
# `LineLexer.Proofs.Joined`: two texts with a delimiter between them

A delimiter between two texts keeps them apart: the line is scanned to
the tokens of the first text and then those of the second one. Only an
open quote at the end of the first text would reach across.

* `Token.IsUnclosed`: a quoted token whose closing quote is missing.
* `scannedFrom_append_delimiter`: two texts at any place of a line, in
  any class table that comes from pinned bytes and a mode.
* `scanLine_append_delimiter`: two texts as a line of their own.
-/

set_option autoImplicit false

namespace LineLexer

/-- A quoted token of the line whose closing quote is missing. It goes on
to the end of the line, and would go on over whatever is put behind. -/
def Token.IsUnclosed (token : Token) (line : List UInt8) : Prop :=
  token.flags.quoted = true ∧
    ∃ quote more, token.span.slice line = quote :: more ∧ quote ∉ more

/-- The token of a line as it is when the byte `d` follows the line. It is
changed only if it ends where the line does, which is at `stop`. -/
def Token.endedBy (token : Token) (stop : Nat) (d : UInt8) : Token :=
  if token.span.stop = stop then { token with delimiter := d } else token

/-- A token that is ended by the byte `d` where the line ends, with its
diagnostics. They do not change. -/
def Scanned.endedBy (scanned : Scanned) (stop : Nat) (d : UInt8) : Scanned :=
  { scanned with token := scanned.token.endedBy stop d }

namespace Lexeme
variable {classes : ClassTable} {mode : Mode} {bytes : List UInt8} {cut : Cut}

/-- A delimiter and any bytes behind it may stand behind a lexeme and
what follows it. -/
theorem Exchange.append_delimiter {d : UInt8} (hd : classes d = .delimiter)
    (hstandard : ByteClass.ofByte d = .delimiter) (after back : List UInt8) :
    Exchange classes classes after (after ++ d :: back) := by
  have hsilent := silent_of_delimiter hstandard
  refine ⟨.append_silent hsilent after back, ?_⟩
  intro b rest heq
  cases after with
  | nil =>
    cases heq
    exact Or.inl hd
  | cons c behind =>
    cases heq
    exact Or.inr ⟨behind, rfl, rfl, .append_silent hsilent behind back⟩

/-- A quoted word without its closing quote reaches to the end of the
line. -/
theorem Cut.quoted_of_unclosed (hmode : mode ≠ .rest)
    (hclasses : ∀ b, classes b = .delimiter ∨ classes b = mode.classes .standard b)
    (h : cut? classes mode bytes = some cut) (hquote : Ascii.isQuote cut.first = true)
    (hopen : cut.first ∉ cut.more) : cut.lexeme.flags.quoted = true ∧ cut.after = [] := by
  obtain ⟨-, hfirst, hread⟩ := read_of_cut? hmode h
  have hclass : classes cut.first = .other := by
    rcases hclasses cut.first with hdel | hstandard
    · exact absurd hdel hfirst
    · rw [hstandard, classes_of_isQuote hquote]
  rw [read_of_quote hclass hquote] at hread
  -- A quote anywhere behind would close the word and be covered.
  have hrest : cut.first ∉ cut.more ++ cut.after := by
    intro hmem
    obtain ⟨inside, behind, heq, hinside⟩ := List.eq_append_cons_of_mem hmem
    rw [heq, readQuoted_of_closed hinside] at hread
    refine hopen ?_
    split at hread
    · rw [← (Reading.mk.inj hread).2.1]
      simp
    · rw [← (Reading.mk.inj hread).2.1]
      simp
  rw [readQuoted_of_unclosed hrest] at hread
  obtain ⟨hlexeme, -, hafter⟩ := Reading.mk.inj hread
  rw [← hlexeme]
  exact ⟨rfl, hafter.symm⟩

/-- Bytes behind a delimiter at the end of the line leave the token its
fields but the byte that ended it. -/
theorem Cut.scanned_append_delimiter (h : cut? classes mode bytes = some cut) {d : UInt8}
    (hd : classes d = .delimiter) (fold : Bool) (start : Nat) (back : List UInt8) :
    ({ cut with after := cut.after ++ d :: back } : Cut).scanned classes mode fold
        (start + cut.skipped.length)
      = (cut.scanned classes mode fold (start + cut.skipped.length)).endedBy
        (start + bytes.length) d := by
  have hlength := congrArg List.length (bytes_of_cut? h)
  simp only [List.length_append] at hlength
  cases hafter : cut.after with
  | nil =>
    have hstop : start + cut.skipped.length + cut.source.length = start + bytes.length := by
      rw [← hlength, hafter, List.length_nil]
      omega
    simp only [scanned, Scanned.endedBy, Token.endedBy, hafter, if_pos hstop, List.nil_append,
      List.head?_cons, Option.getD_some, Option.map_some, hd]
    rfl
  | cons b rest =>
    have hstop : start + cut.skipped.length + cut.source.length ≠ start + bytes.length := by
      rw [← hlength, hafter, List.length_cons]
      omega
    simp only [scanned, Scanned.endedBy, Token.endedBy, hafter, if_neg hstop]
    rfl

end Lexeme

section Joined
variable {classes : ClassTable} {mode : Mode} {fold : Bool} {start : Nat}
  {front line : List UInt8} {d : UInt8}

/-- A token that reaches the end of the line is ended by no byte. -/
theorem delimiter_of_stop : ∀ s ∈ scannedFrom classes mode fold start front,
    s.token.span.stop = start + front.length → s.token.delimiter = 0 := by
  fun_induction scannedFrom classes mode fold start front with
  | case1 start front h =>
    intro s hs
    cases hs
  | case2 start front cut h first ih =>
    have hlength := congrArg List.length (Lexeme.Cut.bytes_of_cut? h)
    simp only [List.length_append] at hlength
    intro s hs hstop
    rcases List.mem_cons.mp hs with rfl | hs
    · have hstop' : first + cut.source.length = start + front.length := hstop
      have hafter : cut.after = [] := by
        apply List.eq_nil_of_length_eq_zero
        omega
      show cut.after.head?.getD 0 = 0
      rw [hafter]
      rfl
    · exact ih s hs (by omega)

/-- Two texts with a delimiter between them, at any place of a line, are
scanned to the tokens of the first text and then those of the second. The
proof is by induction on the tokens of the first text. -/
theorem scannedFrom_append_delimiter (hmode : mode ≠ .rest)
    (hclasses : ∀ b, classes b = .delimiter ∨ classes b = mode.classes .standard b)
    (hd : classes d = .delimiter) (hstandard : ByteClass.ofByte d = .delimiter)
    (hline : line.drop start = front)
    (hclosed : ∀ s ∈ (scannedFrom classes mode fold start front).getLast?,
      ¬ s.token.IsUnclosed line) (back : List UInt8) :
    scannedFrom classes mode fold start (front ++ d :: back)
      = (scannedFrom classes mode fold start front).map
          (fun s => s.endedBy (start + front.length) d)
        ++ scannedFrom classes mode fold (start + front.length + 1) back := by
  -- The induction follows the lexemes of the first text, each of which is cut off the joined
  -- line as well. What is left of that text in the end are delimiters.
  fun_induction scannedFrom classes mode fold start front with
  | case1 start front h =>
    rw [Lexeme.cut?_eq_none_iff, if_neg hmode] at h
    have hfront : ∀ b ∈ front ++ [d], classes b = .delimiter := by
      intro b hb
      rcases List.mem_append.mp hb with hb | hb
      · exact h b hb
      · rw [List.mem_singleton.mp hb]
        exact hd
    have hskip := scannedFrom_delimiters_append hmode hfront fold start back
    simpa [Nat.add_assoc] using hskip
  | case2 start front cut h first ih =>
    have hparts := Lexeme.Cut.bytes_of_cut? h
    have hlength := congrArg List.length hparts
    simp only [List.length_append] at hlength
    -- Behind an open quote there would be no other token.
    have hquote : Ascii.isQuote cut.first = true →
        cut.first ∈ cut.more ∨ cut.after ++ d :: back = [] := by
      intro hquote
      by_contra hopen
      obtain ⟨hquoted, hafter⟩ :=
        Lexeme.Cut.quoted_of_unclosed hmode hclasses h hquote fun hmem => hopen (Or.inl hmem)
      rw [hafter, scannedFrom_nil] at hclosed
      exact hclosed _ rfl ⟨hquoted, cut.first, cut.more, Lexeme.Cut.slice_line h hline fold,
        fun hmem => hopen (Or.inl hmem)⟩
    have hshown : Numeral.Dimmer cut.after (cut.after ++ d :: back) := .append_right _ _
    have hcut := Lexeme.cut?_exchange hmode hclasses h
      (Lexeme.read_of_cut? hmode h).1 (fun b _ => rfl)
      (Lexeme.Exchange.append_delimiter hd hstandard cut.after back) (fun _ => Or.inl hshown) hquote
    rw [← List.append_assoc, hparts] at hcut
    have hmore := ih (Lexeme.Cut.drop_line h hline) fun s hs => hclosed s (by
      rw [List.getLast?_cons, Option.mem_def.mp hs]
      rfl)
    rw [scannedFrom_of_some hcut, List.map_cons, List.cons_append,
      Lexeme.Cut.scanned_append_delimiter h hd]
    have hstop : first + cut.source.length + cut.after.length = start + front.length := by omega
    rw [hstop] at hmore
    exact congrArg _ hmore

end Joined

/-- A delimiter keeps two texts apart: the line has the tokens of the
first text, of which one at its end is now ended by the delimiter and
not by the end of the line, and then those of the second text; and
their diagnostics in the same order. The first text must not end in a
token without its closing quote. -/
theorem scanLine_append_delimiter {settings : Settings} (hmode : settings.mode ≠ .rest)
    {front back : List UInt8} (hfront : 0 ∉ front) (hback : 0 ∉ back) {d : UInt8} (hzero : d ≠ 0)
    (hd : ByteClass.ofByte d = .delimiter)
    (hclosed : ∀ token ∈ (scanLine front settings).1.getLast?, ¬ token.IsUnclosed front) :
    scanLine (front ++ d :: back) settings
        = ((scanLine front settings).1.map (fun token => token.endedBy front.length d)
            ++ (scanLine back settings).1.map (fun token => token.shift (front.length + 1)),
          (scanLine front settings).2
            ++ (scanLine back settings).2.map (fun diagnostic =>
              diagnostic.shift (front.length + 1))) ∧
      ∀ token ∈ (scanLine front settings).1,
        token.span.stop = front.length → token.delimiter = 0 := by
  have hjoined : 0 ∉ front ++ d :: back := by
    simp [hfront, hback, Ne.symm hzero]
  rw [scanLine_of_zero_not_mem hfront] at hclosed
  rw [scanLine_of_zero_not_mem hjoined, scanLine_of_zero_not_mem hfront,
    scanLine_of_zero_not_mem hback]
  have hclosed' : ∀ s ∈ (scannedFrom settings.classes settings.mode settings.fold 0
      front).getLast?, ¬ s.token.IsUnclosed front :=
    fun s hs => hclosed s.token (by simp [Option.mem_def.mp hs])
  -- The bytes behind the delimiter are scanned as at the start of a line, and moved.
  have happend := scannedFrom_append_delimiter hmode settings.classes_cases
    (settings.classes_of_delimiter hd) hd List.drop_zero hclosed' back
  have hshift := scannedFrom_shift settings.classes settings.mode settings.fold 0
    (front.length + 1) back
  rw [Nat.zero_add] at happend hshift
  rw [happend, hshift]
  refine ⟨?_, ?_⟩
  · simp only [List.map_append, List.map_map, List.flatMap_append, List.flatMap_map,
      List.map_flatMap]
    rfl
  · intro token htoken hstop
    obtain ⟨s, hs, rfl⟩ := List.mem_map.mp htoken
    exact delimiter_of_stop s hs (by rw [Nat.zero_add]; exact hstop)

/-- A minus sign and a digit with a semicolon between them are not a
signed number. -/
theorem scanLine_minus_semicolon_digit :
    scanLine ([0x2d] ++ 0x3b :: [0x35]) .standard
        = ((scanLine [0x2d] .standard).1.map (fun token => token.endedBy 1 0x3b)
            ++ (scanLine [0x35] .standard).1.map (fun token => token.shift 2),
          (scanLine [0x2d] .standard).2
            ++ (scanLine [0x35] .standard).2.map (fun diagnostic => diagnostic.shift 2)) ∧
      ∀ token ∈ (scanLine [0x2d] .standard).1, token.span.stop = 1 → token.delimiter = 0 := by
  have hplain : ∀ token ∈ (scanLine [0x2d] .standard).1, token.flags.quoted = false := by
    decide +kernel
  have hclosed : ∀ token ∈ (scanLine [0x2d] .standard).1.getLast?, ¬ token.IsUnclosed [0x2d] := by
    intro token htoken hopen
    rw [Token.IsUnclosed, hplain token (List.mem_of_getLast? htoken)] at hopen
    cases hopen.1
  exact scanLine_append_delimiter (by decide) (by decide) (by decide) (by decide) (by decide)
    hclosed

end LineLexer
