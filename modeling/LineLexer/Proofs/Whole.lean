import LineLexer.Proofs.Exchange
import LineLexer.Tokens

/-!
# `LineLexer.Proofs.Whole`: a line as one recursion on its bytes

Draining a reader moves a cursor through a line. Theorems about whole
lines are easier to prove about the bytes alone, so here is the same
as a recursion on these.

* `scannedFrom`: the tokens of some bytes with their diagnostics, cut
  by cut, for bytes that stand anywhere in a line.
* `scanLine_eq`: a line is scanned to just that.
* `scannedFrom_delimiters_append`: delimiters in front only move what
  follows.
* `exists_cut_of_mem_scannedFrom`: every token is that of a cut.
* `scannedFrom_shift`: the place of the bytes counts for the spans
  alone.
-/

set_option autoImplicit false

namespace LineLexer

/-! ### One cut -/

namespace Lexeme
variable {classes : ClassTable} {mode : Mode} {bytes line : List UInt8} {cut : Cut} {start : Nat}

/-- Fewer bytes stand behind a cut than it was made from. -/
theorem Cut.length_after_lt (h : cut? classes mode bytes = some cut) :
    cut.after.length < bytes.length := by
  have hparts := congrArg List.length (Cut.bytes_of_cut? h)
  simp only [Cut.source, List.length_append, List.length_cons] at hparts
  omega

/-- What a line has behind the end of a cut is what the cut has left. -/
theorem Cut.drop_line (h : cut? classes mode bytes = some cut) (hline : line.drop start = bytes) :
    line.drop (start + cut.skipped.length + cut.source.length) = cut.after := by
  rw [Nat.add_assoc, ← List.drop_drop, hline, ← Cut.bytes_of_cut? h, ← List.length_append,
    List.drop_left]

/-- The bytes that a cut covers are the slice of the line at its
span. -/
theorem Cut.slice_line (h : cut? classes mode bytes = some cut)
    (hline : line.drop start = bytes) (fold : Bool) :
    (cut.scanned classes mode fold (start + cut.skipped.length)).token.span.slice line
      = cut.source := by
  show (Span.mk _ _).slice line = _
  rw [Span.slice, List.drop_take, ← List.drop_drop, hline, ← Cut.bytes_of_cut? h,
    Nat.add_sub_cancel_left, List.append_assoc, List.drop_left, List.take_left]

/-- Nothing stands behind the rest of a line. -/
theorem Cut.after_of_rest (h : cut? classes .rest bytes = some cut) : cut.after = [] := by
  unfold cut? at h
  rw [if_pos rfl] at h
  split at h
  · cases h
  · cases h
    rfl

/-- Delimiters in front of some bytes are passed over with those that the
next cut passes over, and change nothing else about it. -/
theorem cut?_delimiters_append (hmode : mode ≠ .rest) {front : List UInt8}
    (hfront : ∀ b ∈ front, classes b = .delimiter) (bytes : List UInt8) :
    cut? classes mode (front ++ bytes)
      = (cut? classes mode bytes).map fun cut => { cut with skipped := front ++ cut.skipped } := by
  have hall : ∀ b ∈ front, (classes b == .delimiter) = true := by
    intro b hb
    rw [beq_iff_eq]
    exact hfront b hb
  unfold cut?
  rw [if_neg hmode, if_neg hmode, List.dropWhile_append_of_pos hall,
    List.takeWhile_append_of_pos hall]
  cases bytes.dropWhile fun b => classes b == .delimiter <;> rfl

end Lexeme

/-! ### All cuts -/

/-- The tokens of some bytes, the first of which stands at the position
`start` of its line, and the diagnostics reported for them. -/
def scannedFrom (classes : ClassTable) (mode : Mode) (fold : Bool) (start : Nat)
    (bytes : List UInt8) : List Scanned :=
  match _h : Lexeme.cut? classes mode bytes with
  | none => []
  | some cut =>
    let first := start + cut.skipped.length
    cut.scanned classes mode fold first
      :: scannedFrom classes mode fold (first + cut.source.length) cut.after
termination_by bytes.length
decreasing_by exact Lexeme.Cut.length_after_lt _h

section Scanned
variable {classes : ClassTable} {mode : Mode} {fold : Bool} {start : Nat} {bytes : List UInt8}
  {cut : Lexeme.Cut}

/-- Bytes in which there is no lexeme have no token. -/
theorem scannedFrom_of_none (h : Lexeme.cut? classes mode bytes = none) :
    scannedFrom classes mode fold start bytes = [] := by
  rw [scannedFrom]
  split
  · rfl
  · next heq =>
    rw [h] at heq
    cases heq

/-- The token of the first lexeme comes before those of the bytes
behind it. -/
theorem scannedFrom_of_some (h : Lexeme.cut? classes mode bytes = some cut) :
    scannedFrom classes mode fold start bytes
      = cut.scanned classes mode fold (start + cut.skipped.length)
        :: scannedFrom classes mode fold (start + cut.skipped.length + cut.source.length)
          cut.after := by
  rw [scannedFrom]
  split
  · next heq =>
    rw [h] at heq
    cases heq
  · next heq =>
    rw [h] at heq
    cases heq
    rfl

/-- No bytes have no token. -/
@[simp] theorem scannedFrom_nil : scannedFrom classes mode fold start [] = [] := by
  apply scannedFrom_of_none
  rw [Lexeme.cut?_eq_none_iff]
  split
  · rfl
  · exact List.forall_mem_nil _

/-- Delimiters in front of some bytes move their tokens to the right and
change nothing else. -/
theorem scannedFrom_delimiters_append (hmode : mode ≠ .rest) {front : List UInt8}
    (hfront : ∀ b ∈ front, classes b = .delimiter) (fold : Bool) (start : Nat)
    (bytes : List UInt8) :
    scannedFrom classes mode fold start (front ++ bytes)
      = scannedFrom classes mode fold (start + front.length) bytes := by
  have hcut := Lexeme.cut?_delimiters_append hmode hfront bytes
  cases h : Lexeme.cut? classes mode bytes with
  | none =>
    rw [h] at hcut
    rw [scannedFrom_of_none h, scannedFrom_of_none hcut]
  | some cut =>
    rw [h] at hcut
    rw [scannedFrom_of_some h, scannedFrom_of_some hcut]
    simp only [List.length_append, Nat.add_assoc]
    rfl

end Scanned

/-- Every token of bytes that stand in a line is that of a cut made
somewhere in the line. -/
theorem exists_cut_of_mem_scannedFrom {classes : ClassTable} {mode : Mode} {fold : Bool}
    {start : Nat} {line bytes : List UInt8} (hline : line.drop start = bytes) :
    ∀ s ∈ scannedFrom classes mode fold start bytes, ∃ place cut,
      Lexeme.cut? classes mode (line.drop place) = some cut ∧
        s = cut.scanned classes mode fold (place + cut.skipped.length) := by
  fun_induction scannedFrom classes mode fold start bytes with
  | case1 start bytes h =>
    intro s hs
    cases hs
  | case2 start bytes cut h first ih =>
    intro s hs
    rcases List.mem_cons.mp hs with rfl | hs
    · exact ⟨start, cut, hline ▸ h, rfl⟩
    · exact ih (Lexeme.Cut.drop_line h hline) s hs

/-! ### Moving a line -/

/-- The diagnostic about the same bytes, moved to the right. -/
def Diagnostic.shift (diagnostic : Diagnostic) (offset : Nat) : Diagnostic :=
  { diagnostic with span := diagnostic.span.shift offset }

/-- The token of the same bytes, moved to the right. -/
def Token.shift (token : Token) (offset : Nat) : Token :=
  { token with span := token.span.shift offset }

/-- The token and diagnostics of the same bytes, moved to the right. -/
def Scanned.shift (scanned : Scanned) (offset : Nat) : Scanned :=
  ⟨scanned.token.shift offset, scanned.diagnostics.map fun d => d.shift offset⟩

/-- Moving a lexeme to the right moves the spans of its token and
diagnostics, and changes nothing else. -/
theorem Lexeme.Cut.scanned_shift (cut : Lexeme.Cut) (classes : ClassTable) (mode : Mode)
    (fold : Bool) (start offset : Nat) :
    cut.scanned classes mode fold (start + offset)
      = (cut.scanned classes mode fold start).shift offset := by
  have hspan : Span.mk (start + offset) (start + offset + cut.source.length)
      = (Span.mk start (start + cut.source.length)).shift offset := by
    rw [Span.shift, Nat.add_right_comm]
  simp only [scanned, Scanned.shift, Token.shift, hspan, List.map_map]
  rfl

/-- Moving some bytes to the right moves the spans of their tokens and
diagnostics, and changes nothing else. -/
theorem scannedFrom_shift (classes : ClassTable) (mode : Mode) (fold : Bool)
    (start offset : Nat) (bytes : List UInt8) :
    scannedFrom classes mode fold (start + offset) bytes
      = (scannedFrom classes mode fold start bytes).map fun s => s.shift offset := by
  fun_induction scannedFrom classes mode fold start bytes with
  | case1 start bytes h =>
    rw [scannedFrom_of_none h]
    rfl
  | case2 start bytes cut h first ih =>
    rw [scannedFrom_of_some h, List.map_cons, ← ih, ← Lexeme.Cut.scanned_shift]
    simp only [first, Nat.add_right_comm]

/-! ### A reader's cursor -/

namespace Tokens

/-- What a scan leaves of the line has the same tokens as what stands
behind the cut: the delimiter that the scan may have passed over makes
none. -/
theorem scannedFrom_drop_width {classes : ClassTable} {mode : Mode} (hmode : mode ≠ .rest)
    {fold : Bool} {start : Nat} {line bytes : List UInt8} {cut : Lexeme.Cut}
    (h : Lexeme.cut? classes mode bytes = some cut) (hline : line.drop start = bytes) :
    scannedFrom classes mode fold (start + cut.width classes)
        (line.drop (start + cut.width classes))
      = scannedFrom classes mode fold (start + cut.skipped.length + cut.source.length)
        cut.after := by
  have hafter := Lexeme.Cut.drop_line h hline
  unfold Lexeme.Cut.width
  dsimp only
  split
  · -- A delimiter is passed over with the lexeme, and none would be missed.
    next hended =>
    rw [Bool.and_eq_true] at hended
    cases hrest : cut.after with
    | nil => simp [hrest] at hended
    | cons b rest =>
      rw [hrest] at hended hafter
      have hb : ∀ c ∈ [b], classes c = .delimiter := by
        intro c hc
        rw [List.mem_singleton.mp hc]
        simpa using hended.2
      have hskip := scannedFrom_delimiters_append hmode hb fold
        (start + cut.skipped.length + cut.source.length) rest
      rw [List.singleton_append, List.length_singleton] at hskip
      rw [hskip, ← Nat.add_assoc, ← Nat.add_assoc, ← List.drop_drop, hafter]
      rfl
  · rw [Nat.add_zero, ← Nat.add_assoc, hafter]

/-- If there is no lexeme ahead, the reader returns no token and goes to
the end of the line. -/
theorem next_of_none {tokens : Tokens} {cursor : Cursor} (h : tokens.cursor = some cursor)
    (hcut : cursor.cut? tokens.mode = none) :
    tokens.next = (none, { tokens with cursor := some cursor.toEnd }) := by
  have hscan : cursor.scan tokens.mode tokens.fold = (none, cursor.toEnd) := by
    rw [Cursor.scan, hcut]
  unfold next
  rw [h]
  dsimp only
  rw [hscan]
  rfl

/-- If there is a lexeme ahead, the reader returns its token and goes on
with the bytes behind it. -/
theorem next_of_some {tokens : Tokens} {cursor : Cursor} (h : tokens.cursor = some cursor)
    {cut : Lexeme.Cut} (hcut : cursor.cut? tokens.mode = some cut) :
    ∃ later : Cursor,
      tokens.next = (some (cut.scanned (tokens.mode.classes cursor.classes) tokens.mode
          tokens.fold (cursor.position + cut.skipped.length)).token,
        { tokens with cursor := some later }) ∧
      later.classes = cursor.classes ∧
      later.diagnostics = cursor.diagnostics ++ (cut.scanned (tokens.mode.classes cursor.classes)
        tokens.mode tokens.fold (cursor.position + cut.skipped.length)).diagnostics ∧
      scannedFrom (tokens.mode.classes cursor.classes) tokens.mode tokens.fold later.position
          later.remaining
        = scannedFrom (tokens.mode.classes cursor.classes) tokens.mode tokens.fold
          (cursor.position + cut.skipped.length + cut.source.length) cut.after := by
  obtain ⟨moved, hscan, hmoved⟩ : ∃ moved : Cursor,
      cursor.scan tokens.mode tokens.fold = (some _, moved) ∧ moved = _ := by
    rw [Cursor.scan, hcut]
    exact ⟨_, rfl, rfl⟩
  -- In rest mode the reader goes to the end, where the lexeme ends anyway.
  by_cases hmode : tokens.mode = .rest
  · refine ⟨moved.toEnd, ?_, ?_, ?_, ?_⟩
    · unfold next
      rw [h]
      dsimp only
      rw [hscan, hmode]
      rfl
    · rw [hmoved]
      rfl
    · rw [hmoved]
      rfl
    · have hafter : cut.after = [] := by
        unfold Cursor.cut? at hcut
        rw [hmode] at hcut
        exact Lexeme.Cut.after_of_rest hcut
      have hend : moved.toEnd.remaining = [] := by
        simp [Cursor.remaining, Cursor.toEnd, Line.length]
      rw [hafter, hend, scannedFrom_nil, scannedFrom_nil]
  · refine ⟨moved, ?_, ?_, ?_, ?_⟩
    · unfold next
      rw [h]
      dsimp only
      rw [hscan]
      simp [hmode]
    · rw [hmoved]
    · rw [hmoved]
    · rw [hmoved]
      exact scannedFrom_drop_width hmode hcut rfl

/-- A reader drains the tokens of what its cursor has left of the line,
and adds their diagnostics to the cursor's. -/
theorem drain_eq {tokens : Tokens} {cursor : Cursor} (h : tokens.cursor = some cursor) :
    tokens.drain.1 = (scannedFrom (tokens.mode.classes cursor.classes) tokens.mode tokens.fold
        cursor.position cursor.remaining).map Scanned.token ∧
      tokens.drain.2.diagnostics = cursor.diagnostics ++
        (scannedFrom (tokens.mode.classes cursor.classes) tokens.mode tokens.fold
          cursor.position cursor.remaining).flatMap Scanned.diagnostics := by
  -- A token uses up some of the line, so the induction is on the bytes that are left.
  induction hleft : tokens.bytesLeft using Nat.strong_induction_on generalizing tokens cursor with
  | _ left ih =>
    cases hcut : cursor.cut? tokens.mode with
    | none =>
      rw [drain_of_next_none (next_of_none h hcut), scannedFrom_of_none hcut]
      exact ⟨rfl, (List.append_nil _).symm⟩
    | some cut =>
      obtain ⟨later, hnext, hclasses, hdiagnostics, hbehind⟩ := next_of_some h hcut
      have hlt := bytesLeft_lt_of_next hnext
      have hcursor : ({ tokens with cursor := some later } : Tokens).cursor = some later := rfl
      obtain ⟨htokens, hlast⟩ := ih _ (hleft ▸ hlt) hcursor rfl
      dsimp only at htokens hlast
      rw [hclasses, hbehind] at htokens hlast
      rw [drain_of_next_some hnext, scannedFrom_of_some hcut]
      dsimp only
      rw [htokens, hlast, hdiagnostics, List.map_cons, List.flatMap_cons, List.append_assoc]
      exact ⟨rfl, rfl⟩

end Tokens

/-! ### A line under settings -/

/-- The classes in force while a line is scanned under the settings. -/
def Settings.classes (settings : Settings) : ClassTable :=
  settings.mode.classes (ClassTable.standard.pinAll settings.pinned)

/-- Settings leave a byte its class unless they make it a delimiter. -/
theorem Settings.classes_cases (settings : Settings) (b : UInt8) :
    settings.classes b = .delimiter ∨ settings.classes b = settings.mode.classes .standard b :=
  settings.mode.classes_pinAll_cases .standard settings.pinned b

/-- With nothing pinned the classes are those of the mode. -/
theorem Settings.classes_of_pinned_nil (fold : Bool) (mode : Mode) :
    (Settings.mk fold [] mode).classes = mode.classes .standard := by
  ext b
  rw [classes, Mode.classes_pinAll]
  exact if_neg List.not_mem_nil

/-- A standard delimiter is a delimiter under any settings. -/
theorem Settings.classes_of_delimiter (settings : Settings) {b : UInt8}
    (h : ByteClass.ofByte b = .delimiter) : settings.classes b = .delimiter := by
  rcases settings.classes_cases b with hdel | hclass
  · exact hdel
  · rw [hclass, Mode.classes_eq_delimiter_iff]
    exact h

/-- A line is scanned to the tokens of its bytes before the first
NUL. -/
theorem scanLine_eq (bytes : List UInt8) (settings : Settings) :
    scanLine bytes settings
      = ((scannedFrom settings.classes settings.mode settings.fold 0
            (bytes.takeWhile (· != 0))).map Scanned.token,
          (scannedFrom settings.classes settings.mode settings.fold 0
            (bytes.takeWhile (· != 0))).flatMap Scanned.diagnostics) := by
  unfold scanLine Tokens.ofLine Settings.cursor? Cursor.ofBytes?
  cases hline : Line.ofBytes? 0 bytes with
  | none =>
    have hempty : bytes.takeWhile (· != 0) = [] := by
      by_contra hne
      simp [Line.ofBytes?, hne] at hline
    rw [hempty, scannedFrom_nil]
    have hnext : (Tokens.mk none settings.mode settings.fold).next
        = (none, Tokens.mk none settings.mode settings.fold) := rfl
    dsimp only [Option.map_none]
    rw [Tokens.drain_of_next_none hnext]
    rfl
  | some line =>
    rw [← Line.bytes_of_ofBytes? hline]
    obtain ⟨htokens, hlast⟩ := Tokens.drain_eq
      (show (Tokens.mk (some ((Cursor.ofLine line).pinAll settings.pinned)) settings.mode
        settings.fold).cursor = some ((Cursor.ofLine line).pinAll settings.pinned) from rfl)
    exact Prod.ext htokens hlast

/-- A line without NUL is scanned as a whole. -/
theorem scanLine_of_zero_not_mem {bytes : List UInt8} (h : 0 ∉ bytes) (settings : Settings) :
    scanLine bytes settings
      = ((scannedFrom settings.classes settings.mode settings.fold 0 bytes).map Scanned.token,
          (scannedFrom settings.classes settings.mode settings.fold 0 bytes).flatMap
            Scanned.diagnostics) := by
  rw [scanLine_eq, List.takeWhile_eq_self_iff.mpr (Lexeme.forall_bne h)]

/-- With nothing pinned, a line without NUL is scanned by the standard
class table of the mode. -/
theorem scanLine_of_pinned_nil {bytes : List UInt8} (h : 0 ∉ bytes) (fold : Bool) (mode : Mode) :
    scanLine bytes ⟨fold, [], mode⟩
      = ((scannedFrom (mode.classes .standard) mode fold 0 bytes).map Scanned.token,
          (scannedFrom (mode.classes .standard) mode fold 0 bytes).flatMap
            Scanned.diagnostics) := by
  rw [scanLine_of_zero_not_mem h, Settings.classes_of_pinned_nil]

/-- The bytes of a line before the first NUL have no NUL among them. -/
theorem zero_not_mem_takeWhile (bytes : List UInt8) : 0 ∉ bytes.takeWhile (· != 0) := by
  intro hzero
  have hne := List.mem_takeWhile_imp hzero
  simp at hne

/-- A part of a line without NUL has none. -/
theorem Span.zero_not_mem_slice {line : List UInt8} (h : 0 ∉ line) (span : Span) :
    0 ∉ span.slice line := by
  intro hzero
  exact h (List.mem_of_mem_take (List.mem_of_mem_drop hzero))

end LineLexer
