import LineLexer.Proofs.Covered
import LineLexer.Tokens

/-!
# `LineLexer.Proofs.Partition`: scanning neither loses nor repeats a byte

A cursor can be asked for its next token in any mode, and in another
mode each time. Whatever it is asked for, the spans of the tokens that
it returns lie in the line one after the other, and the bytes between
them are delimiters.

* `Cursor.Call`, `Cursor.scanAll`: a record of each scan that a list of
  requests makes.
* `Cursor.Partition`: what the record of some scans has to say about the
  line.
* `partition_scan`: the record of one scan is a partition of what it has
  passed over.
* `partition_scanAll`: the record of any requests is a partition of what
  they have passed over, from any position on.
* `partition_of_cursor?`: the record of any requests is a partition of the
  line up to where they stop, with any bytes pinned.
-/

set_option autoImplicit false

namespace LineLexer

/-- The position is one of the span's. -/
def Span.Covers (span : Span) (i : Nat) : Prop := span.start ≤ i ∧ i < span.stop

/-- The position lies between the quotes of a quoted token: behind the
opening one, and before the first byte of the line that is that quote
again, if there is one. -/
def Token.Encloses (token : Token) (bytes : List UInt8) (i : Nat) : Prop :=
  token.flags.quoted = true ∧ token.span.start < i ∧
    ∀ j, token.span.start < j → j ≤ i → bytes[j]? ≠ bytes[token.span.start]?

namespace Cursor

/-- A scan: the mode and fold that it was asked for, the positions
before and after it, and what it returned. -/
structure Call where
  mode : Mode
  fold : Bool
  before : Nat
  token : Option Token
  after : Nat

/-- The scans that a list of requests makes one after the other, and
the cursor behind them. -/
def scanAll (cursor : Cursor) : List (Mode × Bool) → List Call × Cursor
  | [] => ([], cursor)
  | (mode, fold) :: requests =>
    let (token, next) := cursor.scan mode fold
    let (calls, last) := scanAll next requests
    (⟨mode, fold, cursor.position, token, next.position⟩ :: calls, last)

/-- The tokens that scans returned, in order. Scans that returned none are
left out. -/
def tokensOf (calls : List Call) : List Token := calls.filterMap Call.token

/-- The tokens of two records are those of the first and then those of
the second. -/
theorem tokensOf_append (calls more : List Call) :
    tokensOf (calls ++ more) = tokensOf calls ++ tokensOf more :=
  List.filterMap_append

/-- Scans that went from the position `start` of a line to the position
`stop` have divided the bytes between them into tokens and
delimiters. -/
structure Partition (bytes : List UInt8) (table : ClassTable) (start stop : Nat)
    (calls : List Call) : Prop where
  /-- The scans have not gone back. -/
  le : start ≤ stop
  /-- The scans have not left what they went over: every token lies in
  it. -/
  within : ∀ token ∈ tokensOf calls, start ≤ token.span.start ∧ token.span.stop ≤ stop
  /-- No token is empty, and each lies in the line. -/
  inside : ∀ token ∈ tokensOf calls,
    token.span.start < token.span.stop ∧ token.span.stop ≤ bytes.length
  /-- Each token begins where an earlier one has ended. -/
  ordered : (tokensOf calls).Pairwise fun token later => token.span.stop ≤ later.span.start
  /-- A scan that returns a token moves on, to behind the token's start. -/
  advances : ∀ call ∈ calls, ∀ token, call.token = some token →
    call.before < call.after ∧ token.span.start < call.after
  /-- A scan that returns nothing goes to the end of the line. -/
  ended : ∀ call ∈ calls, call.token = none → call.after = bytes.length
  /-- A byte that no token covers is a delimiter. -/
  gaps : ∀ i b, start ≤ i → i < stop → bytes[i]? = some b →
    (∀ token ∈ tokensOf calls, ¬ token.span.Covers i) → table b = .delimiter
  /-- A delimiter that a token covers is part of the rest of the line
  or stands between quotes. -/
  quoted : ∀ call ∈ calls, ∀ token, call.token = some token → ∀ i b, token.span.Covers i →
    bytes[i]? = some b → table b = .delimiter → call.mode = .rest ∨ token.Encloses bytes i

/-! ### One scan -/

section Scan
variable {cursor : Cursor} {mode : Mode} {cut : Lexeme.Cut}

/-- The bytes of the line from the cursor's position on are those that
remain. -/
theorem getElem?_line (cursor : Cursor) (k : Nat) :
    cursor.line.bytes[cursor.position + k]? = cursor.remaining[k]? := by
  rw [remaining, List.getElem?_drop]

/-- The bytes of a lexeme stand behind the delimiters that were passed
over. -/
theorem getElem?_source (h : cursor.cut? mode = some cut) {k : Nat}
    (hk : k < cut.source.length) :
    cursor.line.bytes[cursor.position + cut.skipped.length + k]? = cut.source[k]? := by
  rw [Nat.add_assoc, getElem?_line, ← Lexeme.Cut.bytes_of_cut? h, List.append_assoc,
    List.getElem?_append_right (by omega), Nat.add_sub_cancel_left,
    List.getElem?_append_left hk]

/-- The bytes that are passed over before a lexeme are delimiters. -/
theorem delimiter_of_skipped (h : cursor.cut? mode = some cut) :
    ∀ b ∈ cut.skipped, cursor.classes b = .delimiter := by
  intro b hb
  by_cases hmode : mode = .rest
  · subst hmode
    unfold cut? Lexeme.cut? at h
    rw [if_pos rfl] at h
    split at h
    · cases h
    · cases h
      cases hb
  · have hdel := (Lexeme.read_of_cut? hmode h).1 b hb
    rwa [Mode.classes_eq_delimiter_iff] at hdel

/-- The byte that is passed over behind a lexeme is a delimiter, if there
is one. -/
theorem delimiter_of_ended (h : cursor.cut? mode = some cut) {k : Nat} {b : UInt8}
    (hb : cursor.remaining[k]? = some b) (hk : cut.skipped.length + cut.source.length ≤ k)
    (hlt : k < cut.width (mode.classes cursor.classes)) : cursor.classes b = .delimiter := by
  unfold Lexeme.Cut.width at hlt
  dsimp only at hlt
  split at hlt
  · next hended =>
    obtain rfl : k = cut.skipped.length + cut.source.length := by omega
    rw [← Lexeme.Cut.bytes_of_cut? h, ← List.length_append, List.getElem?_append_right (by omega),
      Nat.sub_self, ← List.head?_eq_getElem?] at hb
    rw [hb, Option.any_some, Bool.and_eq_true, beq_iff_eq] at hended
    exact (Mode.classes_eq_delimiter_iff ..).mp hended.2
  · omega

/-- A delimiter that a lexeme covers is part of the rest of the line or
lies behind an opening quote that has not come again. -/
theorem delimiter_of_source (h : cursor.cut? mode = some cut) {k : Nat} {b : UInt8}
    (hk : cut.source[k]? = some b) (hb : cursor.classes b = .delimiter) :
    mode = .rest ∨ (cut.lexeme.flags.quoted = true ∧ 0 < k ∧
      ∀ j, 0 < j → j ≤ k → cut.source[j]? ≠ some cut.first) := by
  by_cases hmode : mode = .rest
  · exact Or.inl hmode
  · obtain ⟨-, hfirst, hread⟩ := Lexeme.read_of_cut? hmode h
    have hk' : (cut.first :: (Lexeme.read (mode.classes cursor.classes) mode cut.first
        (cut.more ++ cut.after)).more)[k]? = some b := by
      rw [hread]
      exact hk
    have hcovered := Lexeme.delimiter_of_read hfirst hk'
      ((Mode.classes_eq_delimiter_iff ..).mpr hb)
    rw [hread] at hcovered
    exact Or.inr hcovered

/-- Where the token of a cut stands, its flags, and where the scan
stops. -/
theorem fields_of_scan (h : cursor.cut? mode = some cut) {fold : Bool} {token : Token}
    {next : Cursor} (hscan : cursor.scan mode fold = (some token, next)) :
    token.span = ⟨cursor.position + cut.skipped.length,
        cursor.position + cut.skipped.length + cut.source.length⟩ ∧
      token.flags = cut.lexeme.flags ∧
      next.position = cursor.position + cut.width (mode.classes cursor.classes) := by
  unfold scan at hscan
  rw [h] at hscan
  cases hscan
  exact ⟨rfl, rfl, rfl⟩

end Scan

/-! ### Records of scans -/

namespace Partition
variable {bytes : List UInt8} {table : ClassTable} {start middle stop : Nat}
  {calls more : List Call}

/-- No scans at all leave nothing to divide. -/
theorem nil (bytes : List UInt8) (table : ClassTable) (start : Nat) :
    Partition bytes table start start [] where
  le := Nat.le_refl start
  within _ h := nomatch h
  inside _ h := nomatch h
  ordered := List.Pairwise.nil
  advances _ h := nomatch h
  ended _ h := nomatch h
  gaps _ _ hi hlt := absurd hlt (Nat.not_lt.mpr hi)
  quoted _ h := nomatch h

/-- If scans go on where others have stopped, both together divide all the
bytes that they went over. -/
theorem append (h : Partition bytes table start middle calls)
    (hmore : Partition bytes table middle stop more) :
    Partition bytes table start stop (calls ++ more) where
  le := h.le.trans hmore.le
  within := by
    intro token htoken
    have hle := h.le
    have hle' := hmore.le
    rw [tokensOf_append] at htoken
    rcases List.mem_append.mp htoken with htoken | htoken
    · have := h.within token htoken
      omega
    · have := hmore.within token htoken
      omega
  inside := by
    intro token htoken
    rw [tokensOf_append] at htoken
    rcases List.mem_append.mp htoken with htoken | htoken
    · exact h.inside token htoken
    · exact hmore.inside token htoken
  ordered := by
    rw [tokensOf_append]
    refine List.pairwise_append.mpr ⟨h.ordered, hmore.ordered, ?_⟩
    -- The scans in front stop before the others begin.
    intro token htoken later hlater
    have hstop := (h.within token htoken).2
    have hstart := (hmore.within later hlater).1
    omega
  advances := by
    intro call hcall
    rcases List.mem_append.mp hcall with hcall | hcall
    · exact h.advances call hcall
    · exact hmore.advances call hcall
  ended := by
    intro call hcall
    rcases List.mem_append.mp hcall with hcall | hcall
    · exact h.ended call hcall
    · exact hmore.ended call hcall
  gaps := by
    intro i b hi hlt hb hfree
    rw [tokensOf_append] at hfree
    by_cases hmiddle : i < middle
    · exact h.gaps i b hi hmiddle hb fun token htoken =>
        hfree token (List.mem_append_left _ htoken)
    · exact hmore.gaps i b (by omega) hlt hb fun token htoken =>
        hfree token (List.mem_append_right _ htoken)
  quoted := by
    intro call hcall
    rcases List.mem_append.mp hcall with hcall | hcall
    · exact h.quoted call hcall
    · exact hmore.quoted call hcall

end Partition

/-! ### One scan divides what it passes over -/

section Step
variable {cursor : Cursor} {mode : Mode} {cut : Lexeme.Cut}

/-- A scan that returns nothing has passed over delimiters only. -/
theorem partition_of_none (hpos : cursor.position ≤ cursor.line.length)
    (h : cursor.cut? mode = none) (fold : Bool) :
    Partition cursor.line.bytes cursor.classes cursor.position cursor.line.length
      [⟨mode, fold, cursor.position, none, cursor.line.length⟩] where
  le := hpos
  within _ h := nomatch h
  inside _ h := nomatch h
  ordered := List.Pairwise.nil
  advances call hcall token htoken := by
    obtain rfl := List.mem_singleton.mp hcall
    cases htoken
  ended call hcall _ := by
    obtain rfl := List.mem_singleton.mp hcall
    rfl
  gaps i b hi hlt hb _ := by
    -- A byte between the position and the end of the line is one that was left.
    obtain ⟨k, rfl⟩ : ∃ k, i = cursor.position + k := ⟨i - cursor.position, by omega⟩
    rw [getElem?_line] at hb
    have hmem := List.mem_of_getElem? hb
    have hnone := (Lexeme.cut?_eq_none_iff ..).mp h
    split at hnone
    · rw [hnone] at hmem
      cases hmem
    · exact (Mode.classes_eq_delimiter_iff ..).mp (hnone b hmem)
  quoted call hcall token htoken := by
    obtain rfl := List.mem_singleton.mp hcall
    cases htoken

/-- A scan that returns a token has passed over its bytes and
delimiters. -/
theorem partition_of_cut (h : cursor.cut? mode = some cut) {fold : Bool} {token : Token}
    {next : Cursor} (hscan : cursor.scan mode fold = (some token, next)) :
    Partition cursor.line.bytes cursor.classes cursor.position next.position
      [⟨mode, fold, cursor.position, some token, next.position⟩] := by
  have hlt := position_lt_of_scan hscan
  have hle := position_le_of_scan hscan
  have hline : next.line = cursor.line := by
    simpa [hscan] using cursor.line_scan mode fold
  rw [hline] at hle
  obtain ⟨hspan, hflags, hnext⟩ := fields_of_scan h hscan
  have hstart : token.span.start = cursor.position + cut.skipped.length := by rw [hspan]
  have hstop : token.span.stop
      = cursor.position + cut.skipped.length + cut.source.length := by rw [hspan]
  have hpos : 0 < cut.source.length := by simp [Lexeme.Cut.source]
  have hwidth : cut.skipped.length + cut.source.length
      ≤ cut.width (mode.classes cursor.classes) := Nat.le_add_right _ _
  have hlength : cursor.line.bytes.length = cursor.line.length := rfl
  exact
    { le := by omega
      within := by
        intro t ht
        obtain rfl : t = token := List.mem_singleton.mp ht
        omega
      inside := by
        intro t ht
        obtain rfl : t = token := List.mem_singleton.mp ht
        omega
      ordered := List.pairwise_singleton _ _
      advances := by
        intro call hcall t ht
        obtain rfl := List.mem_singleton.mp hcall
        cases ht
        show cursor.position < next.position ∧ token.span.start < next.position
        exact ⟨hlt, by omega⟩
      ended := by
        intro call hcall hnone
        obtain rfl := List.mem_singleton.mp hcall
        cases hnone
      gaps := by
        intro i b hi hlt hb hfree
        have hout : ¬ token.span.Covers i := hfree token (List.mem_singleton.mpr rfl)
        obtain ⟨k, rfl⟩ : ∃ k, i = cursor.position + k := ⟨i - cursor.position, by omega⟩
        rw [getElem?_line] at hb
        -- The byte stands before the lexeme or, if it was passed over with it, behind it.
        by_cases hbefore : k < cut.skipped.length
        · rw [← Lexeme.Cut.bytes_of_cut? h, List.append_assoc,
            List.getElem?_append_left hbefore] at hb
          exact delimiter_of_skipped h b (List.mem_of_getElem? hb)
        · refine delimiter_of_ended h hb ?_ (by omega)
          by_contra hcovered
          exact hout ⟨by omega, by omega⟩
      quoted := by
        intro call hcall t ht i b hcovers hb hdel
        obtain rfl := List.mem_singleton.mp hcall
        cases ht
        obtain ⟨hge, hlt⟩ := hcovers
        -- Positions of the line become positions in the lexeme.
        obtain ⟨k, rfl⟩ : ∃ k, i = cursor.position + cut.skipped.length + k :=
          ⟨i - (cursor.position + cut.skipped.length), by omega⟩
        rw [getElem?_source h (by omega)] at hb
        rcases delimiter_of_source h hb hdel with hrest | ⟨hquoted, hk, hfresh⟩
        · exact Or.inl hrest
        · refine Or.inr ⟨by rw [hflags]; exact hquoted, by omega, ?_⟩
          intro j hj hjk
          obtain ⟨m, rfl⟩ : ∃ m, j = cursor.position + cut.skipped.length + m :=
            ⟨j - (cursor.position + cut.skipped.length), by omega⟩
          have hopening := getElem?_source h hpos
          rw [Nat.add_zero] at hopening
          rw [hstart, hopening, getElem?_source h (by omega)]
          exact hfresh m (by omega) (by omega) }

end Step

/-- Any scan divides the bytes that it passes over into a token and
delimiters, and stays in the line. -/
theorem partition_scan (cursor : Cursor) (hpos : cursor.position ≤ cursor.line.length)
    (mode : Mode) (fold : Bool) :
    Partition cursor.line.bytes cursor.classes cursor.position (cursor.scan mode fold).2.position
        [⟨mode, fold, cursor.position, (cursor.scan mode fold).1,
          (cursor.scan mode fold).2.position⟩] ∧
      (cursor.scan mode fold).2.position ≤ cursor.line.length := by
  cases hcut : cursor.cut? mode with
  | none =>
    have hscan : cursor.scan mode fold = (none, cursor.toEnd) := by rw [scan, hcut]
    rw [hscan]
    exact ⟨partition_of_none hpos hcut fold, Nat.le_refl _⟩
  | some cut =>
    obtain ⟨token, htoken⟩ : ∃ token, (cursor.scan mode fold).1 = some token := by
      rw [scan, hcut]
      exact ⟨_, rfl⟩
    have hscan : cursor.scan mode fold = (some token, (cursor.scan mode fold).2) :=
      Prod.ext htoken rfl
    have hle := position_le_of_scan hscan
    rw [line_scan] at hle
    rw [htoken]
    exact ⟨partition_of_cut hcut hscan, hle⟩

/-! ### Any list of requests -/

/-- Scans divide the line from where they begin to where they stop,
whatever modes they are asked for. The proof is by induction on the
requests. -/
theorem partition_scanAll (cursor : Cursor) (hpos : cursor.position ≤ cursor.line.length)
    (requests : List (Mode × Bool)) :
    Partition cursor.line.bytes cursor.classes cursor.position
      (cursor.scanAll requests).2.position (cursor.scanAll requests).1 := by
  induction requests generalizing cursor with
  | nil => exact .nil ..
  | cons request requests ih =>
    obtain ⟨mode, fold⟩ := request
    obtain ⟨hfirst, hle⟩ := cursor.partition_scan hpos mode fold
    have hmore := ih (cursor.scan mode fold).2 (by rw [line_scan]; exact hle)
    rw [line_scan, classes_scan] at hmore
    exact hfirst.append hmore

/-- Scans from the start of a line, with any bytes pinned and in any
modes, divide the line up to where they stop into tokens and delimiters.
No byte is lost between two tokens and none is in both, however the modes
are mixed. -/
theorem partition_of_cursor? {settings : Settings} {bytes : List UInt8} {cursor : Cursor}
    (h : settings.cursor? bytes = some cursor) (requests : List (Mode × Bool)) :
    Partition (bytes.takeWhile (· != 0)) (ClassTable.standard.pinAll settings.pinned) 0
      (cursor.scanAll requests).2.position (cursor.scanAll requests).1 := by
  obtain ⟨fresh, hfresh, rfl⟩ := Option.map_eq_some_iff.mp h
  obtain ⟨line, hline, rfl⟩ := Option.map_eq_some_iff.mp hfresh
  rw [← Line.bytes_of_ofBytes? hline]
  exact partition_scanAll ((ofLine line).pinAll settings.pinned) (Nat.zero_le _) requests

/-- Four scans of `a:"b;"5-3;!`, in three modes and with the colon
pinned. -/
theorem partition_of_colon_pinned :
    ∃ cursor, (Settings.mk true [0x3a] .plain).cursor?
        [0x61, 0x3a, 0x22, 0x62, 0x3b, 0x22, 0x35, 0x2d, 0x33, 0x3b, 0x21] = some cursor ∧
      let scans := cursor.scanAll
        [(.plain, true), (.word, false), (.plain, false), (.rest, false)]
      (tokensOf scans.1).map Token.span = [⟨0, 1⟩, ⟨2, 9⟩, ⟨10, 11⟩] ∧
      Partition [0x61, 0x3a, 0x22, 0x62, 0x3b, 0x22, 0x35, 0x2d, 0x33, 0x3b, 0x21]
        (ClassTable.standard.pinAll [0x3a]) 0 scans.2.position scans.1 := by
  refine ⟨_, rfl, by decide +kernel, ?_⟩
  have h : (Settings.mk true [0x3a] .plain).cursor?
      [0x61, 0x3a, 0x22, 0x62, 0x3b, 0x22, 0x35, 0x2d, 0x33, 0x3b, 0x21] = some _ := rfl
  exact partition_of_cursor? h _

end Cursor

end LineLexer
