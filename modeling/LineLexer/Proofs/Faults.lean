import LineLexer.Proofs.WholeNumbers

/-!
# `LineLexer.Proofs.Faults`: the diagnostics of a line follow its tokens

Only numbers are reported about, and each diagnostic names the text of
the number and stands at its span. So the diagnostics of a line can be
read off its tokens, if it is known for every token which faults it
has.

* `Token.reports`: the diagnostics about a token with some faults.
* `Numeral.faults`: the faults of a number, one for its integer value
  and one for its real value.
* `Numeral.faults_cases`: both are faults only if the integer part is
  out of range and the text is no real number, which takes real mode.
* `Numeral.ScannedAs.length_reported_le`: with nothing pinned that does
  not happen.
* `Token.HasFaults`: which faults a token can have under the settings.
* `scanLine_faults`: the diagnostics of a line are those about its
  tokens, one token after the other.
-/

set_option autoImplicit false

namespace LineLexer

open Ascii Numeral

/-- The diagnostics about a token with these faults. Each of them names
the token's text. -/
def Token.reports (token : Token) (faults : List NumeralFault.Kind) : List Diagnostic :=
  faults.map fun kind => Diagnostic.ofFault token.span ⟨kind, token.text⟩

/-! ### The faults of a number -/

/-- The faults of a result are the one that it failed with, if it
failed. -/
theorem mem_faultOf_iff {α : Type} {result : Except NumeralFault α} {fault : NumeralFault} :
    fault ∈ faultOf result ↔ result = .error fault := by
  cases result with
  | ok value => simp [faultOf]
  | error other => simp [faultOf, eq_comm]

/-- A result has at most one fault. -/
theorem length_faultOf_le {α : Type} (result : Except NumeralFault α) :
    (faultOf result).length ≤ 1 := by
  cases result with
  | ok value => exact Nat.zero_le 1
  | error fault => exact Nat.le_refl 1

namespace Numeral

/-- The faults of a number with the text: that of its integer value and
then, in real mode, that of its real value. -/
def faults (n : Numeral) (mode : Mode) (text : String) : List NumeralFault.Kind :=
  (faultOf (n.value? text) ++
    if mode = .real then faultOf (n.realValue? text (recovered 0 (n.value? text))) else []).map
      NumeralFault.kind

section Faults
variable {n : Numeral} {text : String} {value : Int} {fault : NumeralFault}

/-- A fault of a hexadecimal text names that text. -/
theorem text_of_readHex (h : readHex text = .error fault) : fault.text = text := by
  have hmap : ∀ result : Except NumeralFault.Kind Int,
      result.mapError (fun kind => NumeralFault.mk kind text) = .error fault →
        fault.text = text := by
    intro result heq
    cases result with
    | ok value => cases heq
    | error kind =>
      cases heq
      rfl
  exact hmap _ h

/-- A text that is read as no real number is malformed, and the fault
names it. -/
theorem fault_of_readReal (h : readReal text = .error fault) : fault = ⟨.malformed, text⟩ := by
  rw [readReal] at h
  dsimp only at h
  split at h
  · cases h
  · cases h
    rfl

/-- A fault of the integer value names the text. Without a hexadecimal
marker it is that the value is out of range. -/
theorem fault_of_value? (h : n.value? text = .error fault) :
    fault.text = text ∧ (n.hex = false → fault = ⟨.integerOutOfRange, text⟩) := by
  cases hhex : n.hex with
  | true =>
    rw [value?, if_pos hhex] at h
    constructor
    · cases hread : readHex text with
      | ok value =>
        rw [hread] at h
        cases h
      | error other =>
        rw [hread] at h
        cases h
        exact text_of_readHex hread
    · intro hdecimal
      cases hdecimal
  | false =>
    rw [value?_of_not_hex hhex] at h
    split at h
    · cases h
    · cases h
      exact ⟨rfl, fun _ => rfl⟩

/-- Only a number without hexadecimal marker has a fault of its real
value: it is malformed. -/
theorem fault_of_realValue? (h : n.realValue? text value = .error fault) :
    n.hex = false ∧ fault = ⟨.malformed, text⟩ := by
  unfold realValue? at h
  cases hhex : n.hex with
  | true =>
    rw [if_pos hhex] at h
    cases h
  | false =>
    rw [hhex, if_neg Bool.false_ne_true] at h
    refine ⟨rfl, ?_⟩
    cases hread : readReal text with
    | ok value =>
      rw [hread] at h
      cases h
    | error other =>
      rw [hread] at h
      cases h
      exact fault_of_readReal hread

/-- A number has at most one fault. Only one without hexadecimal marker
can have two, in real mode: its integer part is out of range, and its
text is no real number. -/
theorem faults_cases (n : Numeral) (mode : Mode) (text : String) :
    (n.faults mode text).length ≤ 1 ∨
      mode = .real ∧ n.hex = false ∧ n.faults mode text = [.integerOutOfRange, .malformed] := by
  unfold faults
  have hone := length_faultOf_le (n.value? text)
  by_cases hmode : mode = .real
  · rw [if_pos hmode]
    cases hreal : n.realValue? text (recovered 0 (n.value? text)) with
    | ok value =>
      left
      simpa [faultOf] using hone
    | error fault =>
      obtain ⟨hhex, rfl⟩ := fault_of_realValue? hreal
      cases hint : n.value? text with
      | ok value => exact Or.inl (Nat.le_refl 1)
      | error other =>
        obtain rfl := (fault_of_value? hint).2 hhex
        exact Or.inr ⟨hmode, hhex, rfl⟩
  · left
    simpa [if_neg hmode] using hone

/-- What is reported about a number are its faults, each with the token's
span and text. -/
theorem ScannedAs.reported_eq {mode : Mode} {fold : Bool} {token : Token}
    {reported : List Diagnostic} (h : n.ScannedAs mode fold token reported) :
    reported = token.reports (n.faults mode token.text) := by
  rw [h.reported, h.intValue, faults, Token.reports, List.map_map]
  apply List.map_congr_left
  intro fault hfault
  have htext : fault.text = token.text := by
    rcases List.mem_append.mp hfault with hint | hreal
    · exact (fault_of_value? (mem_faultOf_iff.mp hint)).1
    · split at hreal
      · obtain ⟨-, rfl⟩ := fault_of_realValue? (mem_faultOf_iff.mp hreal)
        rfl
      · cases hreal
  show Diagnostic.ofFault token.span fault = Diagnostic.ofFault token.span ⟨fault.kind, token.text⟩
  rw [← htext]

/-- With nothing pinned, at most one thing is reported about a number
that is read from its sign and the run behind it: what is out of range
as an integer is a real number. -/
theorem ScannedAs.length_reported_le {mode : Mode} {fold negative : Bool} {bytes : List UInt8}
    {token : Token} {reported : List Diagnostic} (hmode : mode ≠ .word)
    (hrun : n = ((signed negative).run (mode.classes .standard) (mode == .real) bytes).1)
    (h : n.ScannedAs mode fold token reported) : reported.length ≤ 1 := by
  cases hhex : n.hex with
  | true =>
    rw [h.reported_eq, Token.reports, List.length_map]
    rcases n.faults_cases mode token.text with hone | ⟨-, hdecimal, -⟩
    · exact hone
    · rw [hhex] at hdecimal
      cases hdecimal
  | false =>
    obtain ⟨whole, fraction, exponent, hparts⟩ := parts_of_run hmode negative bytes (hrun ▸ hhex)
    rw [← hrun] at hparts
    rw [reported_of_parts h hparts]
    by_cases hlarge : isInteger64 n.signedWhole = true
    · rw [if_pos hlarge]
      split <;> simp
    · have hdigit := any_isDigit_of_large hparts (by simpa using hlarge)
      simp [hlarge, hdigit]

end Faults

end Numeral

/-! ### The faults of a token -/

/-- The faults that a token of a line can have under the settings. There
is one field for each bound. -/
structure Token.HasFaults (token : Token) (settings : Settings)
    (faults : List NumeralFault.Kind) : Prop where
  number : faults ≠ [] → token.byteClass = .digit
  words : settings.mode = .word ∨ settings.mode = .rest → faults = []
  plain : settings.mode = .plain → faults.length ≤ 1
  real : settings.mode = .real → faults.length ≤ 1 ∨ faults = [.integerOutOfRange, .malformed]
  unpinned : settings.pinned = [] → faults.length ≤ 1

/-- A token without faults is within all bounds, whatever it is. -/
theorem Token.hasFaults_nil (token : Token) (settings : Settings) :
    token.HasFaults settings [] where
  number h := absurd rfl h
  words _ := rfl
  plain _ := Nat.zero_le 1
  real _ := Or.inl (Nat.zero_le 1)
  unpinned _ := Nat.zero_le 1

namespace Lexeme

variable {settings : Settings} {bytes : List UInt8} {cut : Cut} {n : Numeral}

/-- Nothing is reported about a cut that is no number. -/
theorem Cut.diagnostics_of_ne_digit (cut : Cut) (h : cut.lexeme.byteClass ≠ .digit)
    (classes : ClassTable) (mode : Mode) (fold : Bool) (start : Nat) :
    (cut.scanned classes mode fold start).diagnostics = [] := by
  cases hlexeme : cut.lexeme with
  | numeral n => exact absurd (by rw [hlexeme]; rfl) h
  | operator | word | quoted =>
    simp only [Cut.scanned, hlexeme]
    cases mode <;> rfl

/-- Numbers are read in plain and in real mode only. -/
theorem mode_of_numeral (h : cut? settings.classes settings.mode bytes = some cut)
    (hlexeme : cut.lexeme = .numeral n) : settings.mode = .plain ∨ settings.mode = .real := by
  have hrest : settings.mode ≠ .rest := by
    intro hmode
    unfold cut? at h
    rw [if_pos hmode] at h
    split at h
    · cases h
    · cases h
      cases hlexeme
  obtain ⟨-, hfirst, hread⟩ := read_of_cut? hrest h
  have hnumber := class_of_number hfirst (by rw [hread, hlexeme]; rfl)
  have hword : settings.mode ≠ .word := by
    intro hmode
    -- No byte has one of the two classes in word mode.
    rcases settings.classes_cases cut.first with hdel | hclass
    · exact hfirst hdel
    · rw [hmode] at hclass
      refine classes_word_ne (b := cut.first) ?_
      rw [← hclass]
      exact hnumber.imp_right And.left
  cases hmode : settings.mode with
  | plain => exact Or.inl rfl
  | real => exact Or.inr rfl
  | word => exact absurd hmode hword
  | rest => exact absurd hmode hrest

/-- With nothing pinned a number is the run behind its sign in the
classes of the mode. -/
theorem run_of_cut? (hpinned : settings.pinned = [])
    (h : cut? settings.classes settings.mode bytes = some cut) (hlexeme : cut.lexeme = .numeral n) :
    ∃ negative run, n = ((signed negative).run (settings.mode.classes .standard)
      (settings.mode == .real) run).1 := by
  have hclasses : settings.classes = settings.mode.classes .standard := by
    obtain ⟨fold, pinned, mode⟩ := settings
    subst hpinned
    exact Settings.classes_of_pinned_nil fold mode
  have hrest : settings.mode ≠ .rest := by
    rcases mode_of_numeral h hlexeme with hmode | hmode <;> simp [hmode]
  obtain ⟨-, hfirst, hread⟩ := read_of_cut? hrest h
  obtain ⟨sign, run, -, -, hrun, -⟩ :=
    run_of_read settings.classes_cases hfirst (by rw [hread, hlexeme]; rfl)
  rw [hread, hlexeme, hclasses] at hrun
  exact ⟨isMinus sign, run, Lexeme.numeral.inj hrun⟩

/-- What is reported about the token of a cut are faults that such a token
can have. -/
theorem Cut.hasFaults (h : cut? settings.classes settings.mode bytes = some cut) (start : Nat) :
    let scanned := cut.scanned settings.classes settings.mode settings.fold start
    ∃ faults, scanned.token.HasFaults settings faults ∧
      scanned.diagnostics = scanned.token.reports faults := by
  intro scanned
  cases hlexeme : cut.lexeme with
  | numeral n =>
    have hscanned := cut.scannedAs hlexeme settings.classes settings.mode settings.fold start
    have hcases := n.faults_cases settings.mode scanned.token.text
    have hmode := mode_of_numeral h hlexeme
    -- One goal for each mode, and one for a line with nothing pinned.
    refine ⟨_, ⟨fun _ => hscanned.byteClass, ?_, ?_, ?_, ?_⟩, hscanned.reported_eq⟩
    · intro hword
      rcases hmode with hmode | hmode <;> simp [hmode] at hword
    · intro hplain
      rcases hcases with hone | ⟨hreal, -⟩
      · exact hone
      · rw [hplain] at hreal
        cases hreal
    · intro hreal
      exact hcases.imp_right fun htwo => htwo.2.2
    · intro hpinned
      obtain ⟨negative, run, hrun⟩ := run_of_cut? hpinned h hlexeme
      have hword : settings.mode ≠ .word := by
        rcases hmode with hmode | hmode <;> simp [hmode]
      have hone := hscanned.length_reported_le hword hrun
      rwa [hscanned.reported_eq, Token.reports, List.length_map] at hone
  | operator | word | quoted =>
    refine ⟨[], scanned.token.hasFaults_nil settings, ?_⟩
    exact cut.diagnostics_of_ne_digit (by simp [hlexeme, byteClass]) ..

end Lexeme

/-! ### Whole lines -/

/-- The tokens of some bytes have faults that such tokens can have, and
what is reported about the bytes are these faults, one token after the
other. -/
theorem exists_faults (settings : Settings) (start : Nat) (bytes : List UInt8) :
    let all := scannedFrom settings.classes settings.mode settings.fold start bytes
    ∃ faults : List (Token × List NumeralFault.Kind), faults.map Prod.fst = all.map Scanned.token ∧
      (∀ entry ∈ faults, entry.1.HasFaults settings entry.2) ∧
      all.flatMap Scanned.diagnostics = faults.flatMap fun entry => entry.1.reports entry.2 := by
  fun_induction scannedFrom settings.classes settings.mode settings.fold start bytes with
  | case1 start bytes h => exact ⟨[], rfl, List.forall_mem_nil _, rfl⟩
  | case2 start bytes cut h first ih =>
    obtain ⟨more, htokens, hmore, hreported⟩ := ih
    obtain ⟨faults, hfaults, hdiagnostics⟩ := Lexeme.Cut.hasFaults h first
    let scanned := cut.scanned settings.classes settings.mode settings.fold first
    refine ⟨(scanned.token, faults) :: more, ?_, ?_, ?_⟩
    · rw [List.map_cons, List.map_cons, htokens]
    · exact List.forall_mem_cons.mpr ⟨hfaults, hmore⟩
    · rw [List.flatMap_cons, List.flatMap_cons, hreported, hdiagnostics]

/-- The diagnostics of a line follow its tokens: they are those about
the faults of the tokens, one token after the other, and a token has
only faults that it can have under the settings. No scan, of whatever
cursor, changes what has been reported before. -/
theorem scanLine_faults (bytes : List UInt8) (settings : Settings) :
    let scanned := scanLine bytes settings
    (∃ faults : List (Token × List NumeralFault.Kind), faults.map Prod.fst = scanned.1 ∧
      (∀ entry ∈ faults, entry.1.HasFaults settings entry.2) ∧
      scanned.2 = faults.flatMap fun entry => entry.1.reports entry.2) ∧
    ∀ (cursor : Cursor) (mode : Mode) (fold : Bool),
      cursor.diagnostics <+: (cursor.scan mode fold).2.diagnostics := by
  intro scanned
  refine ⟨?_, ?_⟩
  · simp only [scanned, scanLine_eq]
    exact exists_faults settings 0 _
  · intro cursor mode fold
    rw [cursor.diagnostics_scan]
    exact List.prefix_append _ _

-- With the 5 pinned, the exponent of `99999999999999999999e5` has no digit.
example : (scanLine (List.replicate 20 0x39 ++ [0x65, 0x35]) ⟨true, [0x35], .real⟩).2
    = (Token.mk "99999999999999999999E" "99999999999999999999e" ⟨0, 21⟩ .digit 0x35 .delimiter 0
        none Flags.none).reports [.integerOutOfRange, .malformed] := by
  decide +kernel

end LineLexer
