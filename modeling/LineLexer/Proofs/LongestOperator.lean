import LineLexer.Proofs.Grammar
import LineLexer.Proofs.Partition
import LineLexer.Proofs.SignAndRun
import LineLexer.Proofs.StepwiseOperator

/-!
# `LineLexer.Proofs.LongestOperator`: operators are as long as they can be

The scanner takes two bytes of class operator if there are two, and
gives the second back if the pair spells nothing. A sign before a
digit it leaves to the number. The outcome is simple: an operator token
covers the longest front of what is ahead that spells an operator, and
a run of such bytes is split into operators one after the other, up to
the sign of a number behind the run.

* `Operator.IsSpelledBy`: the spellings of an operator.
* `read?_iff_isSpelledBy`: an operator is read from all of some bytes
  exactly if they spell it.
* `Lexeme.operators`: the words of bytes of class operator that spell
  one.
* `isLongestPrefix_of_read?`: what is read is the longest such word.
* `Token.IsOperator`: what the token of an operator says.
* `Cursor.operator_of_scan`, `Cursor.number_of_scan`: the two outcomes
  of a scan at a byte of class operator.
* `Cursor.Splits`, `Cursor.splits_run`: how a run of bytes of class
  operator is split.
* `Cursor.scan_operators`: the outcomes of one scan and the splitting of a
  run, for any pinned bytes.
-/

set_option autoImplicit false

namespace LineLexer

open Ascii Grammar

/-! ### Spellings -/

namespace Operator

/-- The bytes spell the operator: as it is reported, or `==`, which is
another spelling of `=`. -/
def IsSpelledBy (op : Operator) (bytes : List UInt8) : Prop :=
  bytes = Utf8.encode op.spelling ∨ (op = .equal ∧ bytes = ['='.toUInt8, '='.toUInt8])

instance (op : Operator) (bytes : List UInt8) : Decidable (op.IsSpelledBy bytes) :=
  inferInstanceAs (Decidable (_ ∨ _))

section Read
variable {op simple : Operator} {first second : UInt8} {bytes : List UInt8}

/-- An operator is read from all of the bytes that spell it. -/
theorem read?_of_isSpelledBy (h : op.IsSpelledBy bytes) :
    read? bytes = some (op, bytes.length) := by
  rcases h with rfl | ⟨rfl, rfl⟩
  · exact read?_spelling op
  · rfl

/-- A byte that spells an operator by itself is the spelling of that
operator. -/
theorem encode_spelling_of_ofByte? (h : ofByte? first = some op) :
    Utf8.encode op.spelling = [first] := by
  have hall : ∀ b : UInt8, (ofByte? b).all (fun op => Utf8.encode op.spelling == [b]) = true :=
    forall_byte (by decide +kernel)
  have hfirst := hall first
  rwa [h, Option.all_some, beq_iff_eq] at hfirst

/-- The two bytes of a compound operator are its spelling, or the other
spelling of `=`. -/
theorem isSpelledBy_of_followedBy? (hfirst : ofByte? first = some simple)
    (h : simple.followedBy? second = some op) : op.IsSpelledBy [first, second] := by
  have hassigned : ∀ simple ∈ all, ∀ op ∈ all, simple.assigned? = some op →
      op.IsSpelledBy (Utf8.encode simple.spelling ++ ['='.toUInt8]) := by decide +kernel
  show op.IsSpelledBy ([first] ++ [second])
  rw [← encode_spelling_of_ofByte? hfirst]
  unfold followedBy? at h
  split_ifs at h with hsecond hpair hpair hpair
  · subst hsecond
    exact hassigned simple (mem_all simple) op (mem_all op) h
  -- Each of the others is one operator, and has one spelling.
  all_goals
    obtain ⟨rfl, rfl⟩ := hpair
    cases h
    decide +kernel

/-- An operator is read from all of some bytes exactly if they spell
it. -/
theorem read?_iff_isSpelledBy :
    read? bytes = some (op, bytes.length) ↔ op.IsSpelledBy bytes := by
  refine ⟨fun h => ?_, read?_of_isSpelledBy⟩
  obtain ⟨hpos, htwo, -⟩ := read?_length h
  match bytes with
  | [] => cases hpos
  | first :: rest =>
    obtain ⟨simple, hfirst, hpair⟩ := Option.map_eq_some_iff.mp h
    match rest with
    | [] =>
      cases hpair
      exact Or.inl (encode_spelling_of_ofByte? hfirst).symm
    | [second] =>
      split at hpair
      · next compound hcompound =>
        cases hpair
        exact isSpelledBy_of_followedBy? hfirst hcompound
      · cases hpair
    | second :: third :: more => simp at htwo

/-- The words that spell an operator. -/
def spellings : Language UInt8 := {w | ∃ op : Operator, op.IsSpelledBy w}

/-- What is read from the front of some bytes is read from these
alone. -/
theorem read?_take {length : Nat} (h : read? bytes = some (op, length)) :
    read? (bytes.take length) = some (op, (bytes.take length).length) := by
  obtain ⟨hpos, htwo, hle⟩ := read?_length h
  rw [List.length_take, Nat.min_eq_left hle]
  match bytes with
  | [] => cases h
  | first :: rest =>
    obtain rfl | rfl : length = 1 ∨ length = 2 := by omega
    · exact Lexeme.read?_singleton h
    · -- No third byte is looked at.
      match rest with
      | [] => simp at hle
      | second :: more => exact h

/-- What is read from the front of some bytes is the longest front that
spells an operator. -/
theorem isLongestPrefix_spellings {length : Nat} (h : read? bytes = some (op, length)) :
    op.IsSpelledBy (bytes.take length) ∧
      IsLongestPrefix spellings bytes (bytes.take length) := by
  have hop : op.IsSpelledBy (bytes.take length) := read?_iff_isSpelledBy.mp (read?_take h)
  refine ⟨hop, List.take_prefix length bytes, ⟨op, hop⟩, ?_⟩
  rintro v hfront ⟨other, hother⟩
  have hv := read?_of_isSpelledBy hother
  obtain ⟨hpos, -, hle⟩ := read?_length h
  obtain ⟨hvpos, hvtwo, -⟩ := read?_length hv
  rw [List.length_take, Nat.min_eq_left hle]
  by_contra hlong
  -- A longer front has two bytes, and then they would have been read.
  match v, bytes with
  | [], _ => simp at hvpos
  | [_], _ => exact hlong hpos
  | [a, b], [] => simp at hfront
  | [a, b], [_] => simpa using hfront.length_le
  | [a, b], first :: second :: more =>
    obtain ⟨rfl, hmore⟩ := List.cons_prefix_cons.mp hfront
    obtain ⟨rfl, -⟩ := List.cons_prefix_cons.mp hmore
    have hsame : read? (a :: b :: more) = read? [a, b] := rfl
    rw [hsame, hv] at h
    cases h
    exact hlong (Nat.le_refl _)
  | _ :: _ :: _ :: _, _ => simp at hvtwo

end Read

end Operator

/-! ### The longest operator -/

namespace Lexeme

/-- The words of bytes of class operator that spell an operator. A token
of an operator covers the longest one that is ahead. -/
def operators (classes : ClassTable) : Language UInt8 :=
  {w | (∃ op : Operator, op.IsSpelledBy w) ∧ ∀ b ∈ w, classes b = .operator}

/-- A sign stands before a byte of class digit that is no underscore. A
number begins there, and no operator. -/
def SignsNumber (classes : ClassTable) (first : UInt8) (rest : List UInt8) : Prop :=
  (first = '+'.toUInt8 ∨ first = '-'.toUInt8) ∧
    ∃ d behind, rest = d :: behind ∧ classes d = .digit ∧ d ≠ '_'.toUInt8

section Longest
variable {classes : ClassTable} {first : UInt8} {rest v : List UInt8}

/-- The scanner begins a signed number exactly where a sign stands before
a byte of class digit that is no underscore. -/
theorem beginsSigned_iff : beginsSigned classes first rest = true ↔
    SignsNumber classes first rest := by
  unfold beginsSigned SignsNumber isSign
  cases rest with
  | nil => simp
  | cons d behind => simp [Numeral.underscore]

/-- A spelling of two bytes of class operator is what the scanner looks
at. -/
theorem operatorBytes_of_mem (hv : v ∈ operators classes) (hfront : v <+: first :: rest)
    (hlength : v.length = 2) : operatorBytes classes first rest = v := by
  match v, rest with
  | [a, b], [] => simpa using hfront.length_le
  | [a, b], second :: behind =>
    obtain ⟨rfl, hmore⟩ := List.cons_prefix_cons.mp hfront
    obtain ⟨rfl, -⟩ := List.cons_prefix_cons.mp hmore
    have hsecond : classes b = .operator := hv.2 b (by simp)
    simp [operatorBytes, hsecond]

/-- What the scanner reads at a byte of class operator is the longest
front of bytes of that class that spells an operator. -/
theorem isLongestPrefix_of_read? {op : Operator} {length : Nat}
    (hfirst : classes first = .operator)
    (h : Operator.read? (operatorBytes classes first rest) = some (op, length)) :
    op.IsSpelledBy (first :: rest.take (length - 1)) ∧
      IsLongestPrefix (operators classes) (first :: rest) (first :: rest.take (length - 1)) := by
  obtain ⟨hop, hlongest⟩ := Operator.isLongestPrefix_spellings h
  obtain ⟨hpos, htwo, -⟩ := Operator.read?_length h
  have hclass : (operatorBytes classes first rest).take length = first :: rest.take (length - 1) ∧
      ∀ b ∈ first :: rest.take (length - 1), classes b = .operator := by
    obtain rfl | rfl : length = 1 ∨ length = 2 := by omega
    · exact ⟨rfl, by simpa using hfirst⟩
    · obtain ⟨second, behind, rfl, hsecond⟩ := eq_cons_of_read?_two h
      simp [operatorBytes, hfirst, hsecond]
  rw [hclass.1] at hop hlongest
  have hfront : first :: rest.take (length - 1) <+: first :: rest :=
    (List.prefix_cons_inj first).mpr (List.take_prefix ..)
  refine ⟨hop, hfront, ⟨⟨op, hop⟩, hclass.2⟩, ?_⟩
  rintro v hv hmem
  obtain ⟨other, hother⟩ := hmem.1
  obtain ⟨-, hvtwo, -⟩ := Operator.read?_length (Operator.read?_of_isSpelledBy hother)
  by_cases hlength : v.length = 2
  · exact hlongest.longest v (by rw [operatorBytes_of_mem hmem hv hlength]) hmem.1
  · rw [List.length_cons]
    omega

end Longest

end Lexeme

/-! ### The token of an operator -/

/-- What the token says of an operator that is spelled by the bytes
`w` from the position `start` on. -/
structure Token.IsOperator (token : Token) (start : Nat) (w : List UInt8) (op : Operator) :
    Prop where
  byteClass : token.byteClass = .operator
  span : token.span = ⟨start, start + w.length⟩
  text : Utf8.encode token.text = w
  rawText : Utf8.encode token.rawText = w
  intValue : token.intValue = op.code
  operator : token.operator? = some op

namespace Cursor

open Lexeme

section Scan
variable {cursor : Cursor} {mode : Mode} {skipped rest : List UInt8} {first : UInt8}

/-- A byte of class operator behind delimiters is read with what stands
behind it. -/
theorem cut?_of_operator (hmode : mode ≠ .rest)
    (hremaining : cursor.remaining = skipped ++ first :: rest)
    (hskipped : ∀ b ∈ skipped, cursor.classes b = .delimiter)
    (hfirst : mode.classes cursor.classes first = .operator) :
    let reading := readOperator (mode.classes cursor.classes) mode first rest
    cursor.cut? mode = some
      { skipped, first, more := reading.more, after := reading.after, lexeme := reading.lexeme } := by
  intro reading
  have hcut := cut?_of_remaining hmode hremaining hskipped (by simp [hfirst])
  rwa [read_of_operator hfirst] at hcut

/-- A sign that stands before a digit begins the token of a number, and no
operator. -/
theorem number_of_scan (hmode : mode ≠ .rest)
    (hremaining : cursor.remaining = skipped ++ first :: rest)
    (hskipped : ∀ b ∈ skipped, cursor.classes b = .delimiter)
    (hfirst : mode.classes cursor.classes first = .operator)
    (hsigns : SignsNumber (mode.classes cursor.classes) first rest) (fold : Bool) :
    ∃ token next, cursor.scan mode fold = (some token, next) ∧ token.byteClass = .digit ∧
      token.span.start = cursor.position + skipped.length := by
  have hcut := cut?_of_operator hmode hremaining hskipped hfirst
  have hsigned := beginsSigned_iff.mpr hsigns
  obtain ⟨-, d, behind, rfl, -, -⟩ := hsigns
  rw [readOperator_of_signed hsigned] at hcut
  obtain ⟨token, next, reported, hscan, -, hspan, hscanned⟩ := scan_of_numeral hcut rfl fold
  exact ⟨token, next, hscan, hscanned.byteClass, by rw [hspan]⟩

/-- The token of a cut that is an operator says which operator it is, and
the scan stops right behind it. -/
theorem isOperator_of_cut {cut : Cut} {op : Operator} (h : cursor.cut? mode = some cut)
    (hlexeme : cut.lexeme = .operator op cut.source)
    (hspelled : ∀ b ∈ cut.source, (Operator.ofByte? b).isSome = true) (fold : Bool) :
    ∃ token next, cursor.scan mode fold = (some token, next) ∧
      token.IsOperator (cursor.position + cut.skipped.length) cut.source op ∧
      next.position = token.span.stop := by
  let scanned := cut.scanned (mode.classes cursor.classes) mode fold
    (cursor.position + cut.skipped.length)
  have hscan : (cursor.scan mode fold).1 = some scanned.token ∧
      (cursor.scan mode fold).2.position
        = cursor.position + cut.width (mode.classes cursor.classes) := by
    rw [scan, h]
    exact ⟨rfl, rfl⟩
  -- The text is not changed by folding, and its bytes can be read off.
  have hencode : Utf8.encode (Utf8.decode cut.source) = cut.source :=
    Utf8.encode_decode fun b hb => (Operator.ascii_of_ofByte? (hspelled b hb)).1
  have hclass : scanned.token.byteClass = .operator := by
    show cut.lexeme.byteClass = .operator
    rw [hlexeme]
    rfl
  have hvalue : scanned.token.intValue = op.code := by
    show recovered 0 (cut.lexeme.intValue? _) = _
    rw [hlexeme]
    rfl
  refine ⟨scanned.token, (cursor.scan mode fold).2, Prod.ext hscan.1 rfl,
    ⟨hclass, rfl, ?_, hencode, hvalue, ?_⟩, ?_⟩
  · show Utf8.encode (cut.lexeme.text _) = cut.source
    rw [hlexeme, Lexeme.text, folded_of_ofByte? _ hspelled, hencode]
  · rw [Token.operator?, if_pos hclass, hvalue, Operator.ofCode?_code]
  · show _ = cursor.position + cut.skipped.length + cut.source.length
    -- No delimiter is passed over behind an operator.
    have hwidth : cut.width (mode.classes cursor.classes)
        = cut.skipped.length + cut.source.length := by
      rw [Cut.width, hlexeme]
      rfl
    rw [hscan.2, hwidth, Nat.add_assoc]

/-- A byte of class operator that begins no number begins the token of the
longest operator that is there, and the scan stops right behind it. -/
theorem operator_of_scan (hspells : (mode.classes cursor.classes).SpellsOperators)
    (hmode : mode ≠ .rest) (hremaining : cursor.remaining = skipped ++ first :: rest)
    (hskipped : ∀ b ∈ skipped, cursor.classes b = .delimiter)
    (hfirst : mode.classes cursor.classes first = .operator)
    (hsigns : ¬ SignsNumber (mode.classes cursor.classes) first rest) (fold : Bool) :
    ∃ token next w op, cursor.scan mode fold = (some token, next) ∧
      IsLongestPrefix (operators (mode.classes cursor.classes)) (first :: rest) w ∧
      op.IsSpelledBy w ∧ token.IsOperator (cursor.position + skipped.length) w op ∧
      next.position = token.span.stop := by
  have hcut := cut?_of_operator hmode hremaining hskipped hfirst
  have hsigned : beginsSigned (mode.classes cursor.classes) first rest = false :=
    Bool.eq_false_iff.mpr fun h => hsigns (beginsSigned_iff.mp h)
  obtain ⟨op, length, hread⟩ := hspells.exists_read? hfirst _
  rw [readOperator_of_not_signed hsigned hread] at hcut
  obtain ⟨hop, hlongest⟩ := isLongestPrefix_of_read? hfirst hread
  have hspelled : ∀ b ∈ first :: rest.take (length - 1), (Operator.ofByte? b).isSome = true := by
    intro b hb
    exact hspells b (hlongest.mem.2 b hb)
  obtain ⟨token, next, hscan, htoken, hnext⟩ := isOperator_of_cut hcut rfl hspelled fold
  exact ⟨token, next, _, op, hscan, hlongest, hop, htoken, hnext⟩

/-- What remains when a scan has gone on by some bytes behind the
delimiters. -/
theorem remaining_of_scan {bytes : List UInt8} {token : Option Token} {next : Cursor} {fold : Bool}
    {taken : Nat} (h : cursor.scan mode fold = (token, next))
    (hremaining : cursor.remaining = skipped ++ bytes)
    (hposition : next.position = cursor.position + skipped.length + taken) :
    next.remaining = bytes.drop taken := by
  have hline : next.line = cursor.line := by
    rw [← line_scan cursor mode fold, h]
  rw [remaining, hline, hposition, ← List.drop_drop, ← List.drop_drop, ← remaining, hremaining,
    List.drop_left]

end Scan

/-! ### Runs of operators -/

/-- The tokens are those of operators that stand one behind the other
from the position `start` on, each the longest that is there. The bytes
`left` stand behind them. -/
inductive Splits (classes : ClassTable) :
    Nat → List UInt8 → List Token → List UInt8 → Prop where
  | nil {start : Nat} {left : List UInt8} : Splits classes start left [] left
  | cons {start : Nat} {bytes left w : List UInt8} {op : Operator} {token : Token}
      {tokens : List Token} (hlongest : IsLongestPrefix (operators classes) bytes w)
      (hop : op.IsSpelledBy w) (htoken : token.IsOperator start w op)
      (hbehind : Splits classes (start + w.length) (bytes.drop w.length) tokens left) :
      Splits classes start bytes (token :: tokens) left

/-- The raw texts of the tokens and the bytes left behind them make up the
bytes that were split. -/
theorem Splits.bytes_eq {classes : ClassTable} {start : Nat} {bytes left : List UInt8}
    {tokens : List Token} (h : Splits classes start bytes tokens left) :
    bytes = (tokens.flatMap fun token => Utf8.encode token.rawText) ++ left := by
  induction h with
  | nil => rfl
  | cons hlongest hop htoken hbehind ih =>
    rw [List.flatMap_cons, htoken.rawText, List.append_assoc, ← ih]
    exact (List.prefix_iff_eq_append.mp hlongest.front).symm

section Run
variable {classes : ClassTable} {mode : Mode} {ops after : List UInt8}

/-- A front of some bytes that is made of bytes of class operator does not
reach past the last byte of that class. -/
theorem prefix_of_operators {w : List UInt8} (hw : w ∈ operators classes)
    (hfront : w <+: ops ++ after) (hafter : ∀ b ∈ after.head?, classes b ≠ .operator) :
    w <+: ops := by
  rcases List.prefix_or_prefix_of_prefix hfront (List.prefix_append ops after) with h | ⟨more, rfl⟩
  · exact h
  · cases more with
    | nil => simp
    | cons b more =>
      obtain ⟨behind, rfl⟩ := (List.prefix_append_right_inj ops).mp hfront
      exact absurd (hw.2 b (by simp)) (hafter b rfl)

/-- Where a number takes a sign from a run of bytes of class operator, the
sign is the last byte of the run. -/
theorem eq_nil_of_signsNumber {first : UInt8} {more : List UInt8}
    (hops : ∀ b ∈ more, classes b = .operator)
    (hsigns : SignsNumber classes first (more ++ after)) : more = [] := by
  obtain ⟨-, d, behind, heq, hd, -⟩ := hsigns
  cases more with
  | nil => rfl
  | cons b more =>
    obtain ⟨rfl, -⟩ := List.cons.inj heq
    have hb := hops b List.mem_cons_self
    rw [hd] at hb
    cases hb

/-- From a byte of class operator behind delimiters on, a run of such
bytes is split into operators. The last byte is left if it is the sign
of a number. -/
theorem splits_run {cursor : Cursor} {skipped : List UInt8}
    (hspells : (mode.classes cursor.classes).SpellsOperators) (hmode : mode ≠ .rest)
    (hremaining : cursor.remaining = skipped ++ (ops ++ after))
    (hskipped : ∀ b ∈ skipped, cursor.classes b = .delimiter)
    (hops : ∀ b ∈ ops, mode.classes cursor.classes b = .operator)
    (hafter : ∀ b ∈ after.head?, mode.classes cursor.classes b ≠ .operator) (fold : Bool) :
    ∃ tokens left,
      let run := cursor.scanAll (List.replicate tokens.length (mode, fold))
      run.1.map Call.token = tokens.map some ∧
        Splits (mode.classes cursor.classes) (cursor.position + skipped.length) (ops ++ after)
          tokens left ∧
        (left = after ∨ ∃ s, left = s :: after ∧ SignsNumber (mode.classes cursor.classes) s after) ∧
        (tokens ≠ [] ∨ skipped = [] → run.2.remaining = left) := by
  -- Each operator makes the run shorter, and the scan behind it skips
  -- nothing.
  induction hlength : ops.length using Nat.strong_induction_on generalizing cursor skipped ops with
  | _ length ih =>
  subst hlength
  cases ops with
  | nil =>
    refine ⟨[], after, rfl, .nil, Or.inl rfl, ?_⟩
    rintro (h | rfl)
    · exact absurd rfl h
    · exact hremaining
  | cons first more =>
    have hfirst := hops first List.mem_cons_self
    by_cases hsigns : SignsNumber (mode.classes cursor.classes) first (more ++ after)
    · have hmore : ∀ b ∈ more, mode.classes cursor.classes b = .operator := by
        intro b hb
        exact hops b (List.mem_cons_of_mem _ hb)
      obtain rfl := eq_nil_of_signsNumber hmore hsigns
      refine ⟨[], first :: after, rfl, .nil, Or.inr ⟨first, rfl, hsigns⟩, ?_⟩
      rintro (h | rfl)
      · exact absurd rfl h
      · exact hremaining
    · obtain ⟨token, next, w, op, hscan, hlongest, hop, htoken, hnext⟩ :=
        operator_of_scan hspells hmode hremaining hskipped hfirst hsigns fold
      have hfront : w <+: (first :: more) ++ after := hlongest.front
      obtain ⟨behind, hbehind⟩ := prefix_of_operators hlongest.mem hfront hafter
      have hclasses : next.classes = cursor.classes := by
        rw [← classes_scan cursor mode fold, hscan]
      rw [htoken.span] at hnext
      have hdrop : (first :: more ++ after).drop w.length = behind ++ after := by
        rw [← hbehind, List.append_assoc, List.drop_left]
      have hleft : next.remaining = [] ++ (behind ++ after) :=
        (remaining_of_scan hscan hremaining hnext).trans hdrop
      have hshorter : behind.length < (first :: more).length := by
        have hpos := (Operator.read?_length (Operator.read?_of_isSpelledBy hop)).1
        rw [← hbehind, List.length_append]
        omega
      rw [← hclasses] at hspells hops hafter
      have hothers : ∀ b ∈ behind, mode.classes next.classes b = .operator := by
        intro b hb
        exact hops b (hbehind ▸ List.mem_append_right w hb)
      obtain ⟨tokens, left, hcalls, hsplits, hend, hrest⟩ :=
        ih behind.length hshorter hspells hleft nofun hothers hafter rfl
      rw [hclasses, hnext, ← hdrop] at hsplits
      rw [hclasses] at hend
      refine ⟨token :: tokens, left, ?_, .cons hlongest hop htoken hsplits, hend, fun _ => ?_⟩
      · rw [List.length_cons, List.replicate_succ, scanAll, hscan]
        exact congrArg (some token :: ·) hcalls
      · rw [List.length_cons, List.replicate_succ, scanAll, hscan]
        exact hrest (Or.inr rfl)

end Run

/-- Whatever is pinned, a byte of class operator behind delimiters
begins the token of a number if it is a sign before a digit, and
otherwise that of the longest operator that is there. The scan then
stops right behind the operator. So a run of such bytes is split into
operators, each the longest, up to the sign of a number behind the run,
and no byte is lost. -/
theorem scan_operators {cursor : Cursor} {pinned : List UInt8}
    (hclasses : cursor.classes = ClassTable.standard.pinAll pinned) {mode : Mode}
    (hmode : mode ≠ .rest) (fold : Bool) {skipped : List UInt8}
    (hskipped : ∀ b ∈ skipped, cursor.classes b = .delimiter) :
    (∀ first rest, cursor.remaining = skipped ++ first :: rest →
      mode.classes cursor.classes first = .operator →
      (SignsNumber (mode.classes cursor.classes) first rest →
        ∃ token next, cursor.scan mode fold = (some token, next) ∧ token.byteClass = .digit ∧
          token.span.start = cursor.position + skipped.length) ∧
      (¬ SignsNumber (mode.classes cursor.classes) first rest →
        ∃ token next w op, cursor.scan mode fold = (some token, next) ∧
          IsLongestPrefix (operators (mode.classes cursor.classes)) (first :: rest) w ∧
          op.IsSpelledBy w ∧ token.IsOperator (cursor.position + skipped.length) w op ∧
          next.position = token.span.stop)) ∧
    (∀ ops after, cursor.remaining = skipped ++ (ops ++ after) →
      (∀ b ∈ ops, mode.classes cursor.classes b = .operator) →
      (∀ b ∈ after.head?, mode.classes cursor.classes b ≠ .operator) →
      ∃ tokens left,
        let run := cursor.scanAll (List.replicate tokens.length (mode, fold))
        run.1.map Call.token = tokens.map some ∧
          Splits (mode.classes cursor.classes) (cursor.position + skipped.length) (ops ++ after)
            tokens left ∧
          ops ++ after = (tokens.flatMap fun token => Utf8.encode token.rawText) ++ left ∧
          (left = after ∨
            ∃ s, left = s :: after ∧ SignsNumber (mode.classes cursor.classes) s after) ∧
          (tokens ≠ [] ∨ skipped = [] → run.2.remaining = left)) := by
  have hspells : (mode.classes cursor.classes).SpellsOperators := by
    rw [hclasses]
    exact (ClassTable.spellsOperators_standard.pinAll pinned).classes mode
  refine ⟨fun first rest hremaining hfirst => ⟨fun hsigns => ?_, fun hsigns => ?_⟩, ?_⟩
  · exact number_of_scan hmode hremaining hskipped hfirst hsigns fold
  · exact operator_of_scan hspells hmode hremaining hskipped hfirst hsigns fold
  · intro ops after hremaining hops hafter
    obtain ⟨tokens, left, hcalls, hsplits, hend, hrest⟩ :=
      splits_run hspells hmode hremaining hskipped hops hafter fold
    exact ⟨tokens, left, hcalls, hsplits, hsplits.bytes_eq, hend, hrest⟩

/-- The operators `<<=*--5` behind the pinned colon of `:<<=*--5`. -/
theorem scan_operators_behind_colon : ∃ cursor, (Settings.mk true [0x3a] .real).cursor?
      [0x3a, 0x3c, 0x3c, 0x3d, 0x2a, 0x2d, 0x2d, 0x35] = some cursor ∧
    (∃ token next w op, cursor.scan .real true = (some token, next) ∧
      IsLongestPrefix (operators (Mode.real.classes cursor.classes))
        [0x3c, 0x3c, 0x3d, 0x2a, 0x2d, 0x2d, 0x35] w ∧
      op.IsSpelledBy w ∧ token.IsOperator 1 w op ∧ next.position = token.span.stop) ∧
    ∃ tokens left,
      let run := cursor.scanAll (List.replicate tokens.length (.real, true))
      run.1.map Call.token = tokens.map some ∧
        Splits (Mode.real.classes cursor.classes) 1 [0x3c, 0x3c, 0x3d, 0x2a, 0x2d, 0x2d, 0x35]
          tokens left ∧
        [0x3c, 0x3c, 0x3d, 0x2a, 0x2d, 0x2d, 0x35]
          = (tokens.flatMap fun token => Utf8.encode token.rawText) ++ left ∧
        (left = [0x35] ∨
          ∃ s, left = [s, 0x35] ∧ SignsNumber (Mode.real.classes cursor.classes) s [0x35]) ∧
        (tokens ≠ [] ∨ ([0x3a] : List UInt8) = [] → run.2.remaining = left) := by
  obtain ⟨cursor, hcursor, hclasses, hstart, hremaining⟩ : ∃ cursor,
      (Settings.mk true [0x3a] .real).cursor? [0x3a, 0x3c, 0x3c, 0x3d, 0x2a, 0x2d, 0x2d, 0x35]
        = some cursor ∧
      cursor.classes = ClassTable.standard.pinAll [0x3a] ∧ cursor.position = 0 ∧
      cursor.remaining = [0x3a] ++ [0x3c, 0x3c, 0x3d, 0x2a, 0x2d, 0x2d, 0x35] :=
    ⟨_, rfl, rfl, rfl, rfl⟩
  have hskipped : ∀ b ∈ [0x3a], cursor.classes b = .delimiter := by
    rw [hclasses]
    decide +kernel
  have hops : ∀ b ∈ [0x3c, 0x3c, 0x3d, 0x2a, 0x2d, 0x2d],
      Mode.real.classes cursor.classes b = .operator := by
    rw [hclasses]
    decide +kernel
  have hafter : ∀ b ∈ [0x35].head?, Mode.real.classes cursor.classes b ≠ .operator := by
    rw [hclasses]
    decide +kernel
  have hsigns : ¬ SignsNumber (Mode.real.classes cursor.classes) 0x3c
      [0x3c, 0x3d, 0x2a, 0x2d, 0x2d, 0x35] := by
    rintro ⟨h | h, -⟩ <;> exact absurd h (by decide +kernel)
  obtain ⟨hone, hrun⟩ := scan_operators hclasses (show Mode.real ≠ .rest by decide) true hskipped
  have hoperator := (hone 0x3c _ hremaining (hops _ List.mem_cons_self)).2 hsigns
  have hsplit := hrun [0x3c, 0x3c, 0x3d, 0x2a, 0x2d, 0x2d] [0x35] hremaining hops hafter
  rw [hstart] at hoperator hsplit
  exact ⟨cursor, hcursor, hoperator, hsplit⟩

end Cursor

end LineLexer
