import LineLexer.Proofs.Pinned
import LineLexer.Proofs.Replay

/-!
# `LineLexer.Proofs.SignAndRun`: a number is a sign and a run

A number begins in three ways: with a digit, with a sign before one,
or with an underscore where real numbers are read. With nothing pinned
the three come to the same: the sign, if there is one, is set apart,
and the number is the run over the bytes behind it.

* `Numeral.Begins`: a sign and bytes with which a number begins.
* `read_of_begins`: the number that is read there, by one run.
* `run_of_read_digits`, `run_of_read`, `begins_of_read`: no number
  begins otherwise, whatever has been done to the class table.
* `Numeral.ScannedAs`: what the token of a number and its diagnostics
  say.
* `Cursor.scan_of_begins`, `Cursor.begins_of_scan`: a scan returns the
  token of a number exactly where one begins.
* `Cursor.run_of_scan`: the run behind such a token, whatever is
  pinned.
-/

set_option autoImplicit false

namespace LineLexer

open Ascii

namespace Numeral

/-- Where nothing is pinned, a number begins with the sign and then the
bytes. Without a sign, and behind `+` and `-`, the bytes begin with
one of class digit that is no underscore; behind an underscore they
may be any. -/
inductive Begins (mode : Mode) : List UInt8 → List UInt8 → Prop where
  | unsigned {b : UInt8} {rest : List UInt8} (hclass : mode.classes .standard b = .digit)
      (hplain : b ≠ underscore) : Begins mode [] (b :: rest)
  | signed {s b : UInt8} {rest : List UInt8} (hsign : isSign s = true)
      (hclass : mode.classes .standard b = .digit) (hplain : b ≠ underscore) :
      Begins mode [s] (b :: rest)
  | underscored {rest : List UInt8} (hmode : mode = .real) : Begins mode [underscore] rest

/-- The signs that make a number negative. -/
def isMinus (sign : List UInt8) : Bool := sign == ['-'.toUInt8] || sign == [underscore]

/-- A sign is no underscore, so only the minus sign makes a number
negative. -/
theorem isMinus_of_isSign {s : UInt8} (h : isSign s = true) :
    isMinus [s] = (s == '-'.toUInt8) := by
  revert s
  apply forall_byte
  decide +kernel

section Classes
variable {mode : Mode} {b : UInt8}

/-- In a mode that reads no real numbers, the bytes of class digit are the
decimal digits. -/
theorem classes_plain_eq_digit_iff :
    Mode.plain.classes .standard b = .digit ↔ isDigit b = true := by
  show ByteClass.ofByte b = .digit ↔ _
  rw [ByteClass.ofByte_eq_digit_iff, isDigit, Bool.and_eq_true, decide_eq_true_iff,
    decide_eq_true_iff]

/-- In real mode the bytes of class digit are the decimal digits, the
point and the underscore. -/
theorem classes_real_eq_digit_iff : Mode.real.classes .standard b = .digit ↔
    isDigit b = true ∨ b = '.'.toUInt8 ∨ b = underscore := by
  rw [Mode.classes_real, ← classes_plain_eq_digit_iff]
  split
  · next hlent => exact iff_of_true rfl (Or.inr hlent)
  · next hlent => exact ⟨Or.inl, fun h => h.resolve_right hlent⟩

/-- No delimiter is a sign of a number or has class digit. -/
theorem ne_delimiter_of_isSign (h : isSign b = true) :
    mode.classes .standard b ≠ .delimiter := by
  rw [Ne, Mode.classes_eq_delimiter_iff]
  intro hdel
  rw [(silent_of_delimiter hdel).sign] at h
  cases h

/-- In every mode a byte of class digit is a decimal digit, the point
or the underscore. -/
theorem eq_of_classes_digit (h : mode.classes .standard b = .digit) :
    isDigit b = true ∨ b = '.'.toUInt8 ∨ b = underscore := by
  cases mode with
  | plain => exact Or.inl (classes_plain_eq_digit_iff.mp h)
  | real => exact classes_real_eq_digit_iff.mp h
  | word => exact absurd (Or.inl h) classes_word_ne
  | rest => exact Or.inl (classes_plain_eq_digit_iff.mp h)

/-- The underscore has class digit in real mode alone. -/
theorem mode_of_classes_underscore (h : mode.classes .standard underscore = .digit) :
    mode = .real := by
  cases mode with
  | real => rfl
  | _ => exact absurd h (by decide)

end Classes

/-! ### The first byte -/

section First
variable {classes : ClassTable} {mode : Mode} {reals : Bool} {b : UInt8} {rest : List UInt8}

/-- A number that has only its sign takes a first byte of class digit,
unless it is an underscore. -/
theorem next?_signed (negative : Bool) (hclass : classes b = .digit)
    (hdigit : mode.classes .standard b = .digit) (hplain : b ≠ underscore) :
    (signed negative).next? classes reals b rest
      = some (((signed negative).nextDigit? b).getD (signed negative)) := by
  rw [next?, hclass]
  rcases eq_of_classes_digit hdigit with hdigit | rfl | rfl
  · simp [nextDigit?, hdigit]
  · rfl
  · exact absurd rfl hplain

/-- The run of a number that has only its sign, over bytes of which the
first is of class digit and no underscore, takes that byte and goes on
with the rest. -/
theorem run_signed (negative : Bool) (hclass : classes b = .digit)
    (hdigit : mode.classes .standard b = .digit) (hplain : b ≠ underscore) :
    (signed negative).run classes reals (b :: rest)
      = let run := (((signed negative).nextDigit? b).getD (signed negative)).run classes reals rest
        (run.1, b :: run.2.1, run.2.2) :=
  run_of_next?_eq_some (next?_signed negative hclass hdigit hplain)

end First

end Numeral

namespace Lexeme

open Numeral

variable {mode : Mode} {first : UInt8} {rest sign bytes : List UInt8}

/-- Where a number begins, with nothing pinned, the next lexeme is a
number. It is the one that a run from the sign comes to over the bytes
behind it. -/
theorem read_of_begins (hbegins : Begins mode sign bytes) (heq : sign ++ bytes = first :: rest) :
    let run := (signed (isMinus sign)).run (mode.classes .standard) (mode == .real) bytes
    let reading := read (mode.classes .standard) mode first rest
    reading.lexeme = .numeral run.1 ∧ first :: reading.more = sign ++ run.2.1 := by
  cases hbegins with
  | @unsigned b behind hclass hplain =>
    obtain ⟨rfl, rfl⟩ : b = first ∧ behind = rest := List.cons.inj heq
    -- The first byte is a digit of the number, which a run takes as well.
    have hstart : start b = ((signed false).nextDigit? b).getD (signed false) := by
      simp [start, hplain]
    dsimp only
    rw [show isMinus [] = false from rfl, run_signed false hclass hclass hplain,
      read_of_digit hclass, hstart]
    exact ⟨rfl, rfl⟩
  | @signed s b behind hsign hclass hplain =>
    obtain ⟨rfl, rfl⟩ : s = first ∧ b :: behind = rest := List.cons.inj heq
    have hmode : mode ≠ .word := by
      rintro rfl
      exact classes_word_ne (Or.inl hclass)
    -- The sign is an operator by its class, and is read as a sign for the digit behind it.
    have hoperator := classes_of_isSign hmode hsign
    have hsigned : ∀ behind, beginsSigned (mode.classes .standard) s (b :: behind) = true := by
      intro behind
      simp [beginsSigned, hsign, hclass, hplain]
    dsimp only
    rw [isMinus_of_isSign hsign, run_signed _ hclass hclass hplain, read_of_operator hoperator,
      readOperator_of_signed (hsigned _)]
    exact ⟨rfl, rfl⟩
  | underscored hreal =>
    obtain ⟨rfl, rfl⟩ : underscore = first ∧ bytes = rest := List.cons.inj heq
    subst hreal
    dsimp only
    rw [read_of_digit classes_underscore]
    exact ⟨rfl, rfl⟩

/-- Suppose that every byte of class digit in the class table is of class
digit in a mode. Then a number that is read begins in one of the ways of
that mode, and it is one run over the bytes behind its sign. -/
theorem run_of_read_digits {classes : ClassTable} {kind : Mode}
    (hdigits : ∀ b, classes b = .digit → kind.classes .standard b = .digit)
    (hfirst : classes first ≠ .delimiter)
    (h : (read classes mode first rest).lexeme.byteClass = .digit) :
    ∃ sign bytes, sign ++ bytes = first :: rest ∧ Begins kind sign bytes ∧
      let run := (signed (isMinus sign)).run classes (mode == .real) bytes
      let reading := read classes mode first rest
      reading.lexeme = .numeral run.1 ∧ first :: reading.more = sign ++ run.2.1 := by
  rcases class_of_number hfirst h with hclass | ⟨hclass, hsigned⟩
  · have hdigit := hdigits first hclass
    rw [read_of_digit hclass]
    by_cases hunderscore : first = underscore
    · subst hunderscore
      exact ⟨[underscore], rest, rfl, .underscored (mode_of_classes_underscore hdigit), rfl, rfl⟩
    · have hstart : start first = ((signed false).nextDigit? first).getD (signed false) := by
        simp [start, hunderscore]
      refine ⟨[], first :: rest, rfl, .unsigned hdigit hunderscore, ?_⟩
      dsimp only
      rw [show isMinus [] = false from rfl, run_signed false hclass hdigit hunderscore, hstart]
      exact ⟨rfl, rfl⟩
  · cases rest with
    | nil => simp [beginsSigned] at hsigned
    | cons second behind =>
      have hbegins := hsigned
      simp only [beginsSigned, List.head?_cons, Option.any_some, Bool.and_eq_true, beq_iff_eq,
        bne_iff_ne] at hbegins
      obtain ⟨hsign, hsecond, hplain⟩ := hbegins
      have hdigit := hdigits second hsecond
      refine ⟨[first], second :: behind, rfl, .signed hsign hdigit hplain, ?_⟩
      dsimp only
      rw [isMinus_of_isSign hsign, run_signed _ hsecond hdigit hplain, read_of_operator hclass,
        readOperator_of_signed hsigned]
      exact ⟨rfl, rfl⟩

/-- Pinned bytes make no new digits: whatever is pinned, a number that is
read begins in one of the ways of its mode, and it is one run over the
bytes behind its sign. -/
theorem run_of_read {classes : ClassTable}
    (hclasses : ∀ b, classes b = .delimiter ∨ classes b = mode.classes .standard b)
    (hfirst : classes first ≠ .delimiter)
    (h : (read classes mode first rest).lexeme.byteClass = .digit) :
    ∃ sign bytes, sign ++ bytes = first :: rest ∧ Begins mode sign bytes ∧
      let run := (signed (isMinus sign)).run classes (mode == .real) bytes
      let reading := read classes mode first rest
      reading.lexeme = .numeral run.1 ∧ first :: reading.more = sign ++ run.2.1 := by
  refine run_of_read_digits ?_ hfirst h
  -- What has another class than delimiter has its own.
  intro b hb
  rcases hclasses b with hdel | hstandard
  · rw [hdel] at hb
    cases hb
  · rw [← hstandard, hb]

/-- With nothing pinned, a lexeme of class digit is read only where a
number begins. -/
theorem begins_of_read (hfirst : mode.classes .standard first ≠ .delimiter)
    (h : (read (mode.classes .standard) mode first rest).lexeme.byteClass = .digit) :
    ∃ sign bytes, sign ++ bytes = first :: rest ∧ Begins mode sign bytes := by
  obtain ⟨sign, bytes, heq, hbegins, -⟩ := run_of_read (fun _ => Or.inr rfl) hfirst h
  exact ⟨sign, bytes, heq, hbegins⟩

end Lexeme

/-! ### The next lexeme of a cursor -/

namespace Numeral

/-- What a token says of the number that it was made of, and the
diagnostics that were reported about it. -/
structure ScannedAs (n : Numeral) (mode : Mode) (fold : Bool) (token : Token)
    (reported : List Diagnostic) : Prop where
  byteClass : token.byteClass = .digit
  text : token.text = Utf8.decode (folded (mode.folds fold) n.text)
  flags : token.flags
    = { real := n.isReal, hex := n.hex, negative := n.negative, quoted := false }
  intValue : token.intValue = recovered 0 (n.value? token.text)
  realValue : token.realValue = if mode = .real then
    some (recovered Binary64.zero (n.realValue? token.text token.intValue)) else none
  /-- What is reported is the fault of the integer value, and behind it,
  in real mode, that of the real value. -/
  reported : reported = (faultOf (n.value? token.text) ++ if mode = .real then
    faultOf (n.realValue? token.text token.intValue) else []).map (Diagnostic.ofFault token.span)

/-- The byte with which a number begins is no delimiter. -/
theorem Begins.exists_cons {mode : Mode} {sign bytes : List UInt8} (h : Begins mode sign bytes) :
    ∃ first rest, sign ++ bytes = first :: rest ∧ mode.classes .standard first ≠ .delimiter := by
  cases h with
  | @unsigned b rest hclass _ => exact ⟨b, rest, rfl, by simp [hclass]⟩
  | @signed s b rest hsign _ _ => exact ⟨s, b :: rest, rfl, ne_delimiter_of_isSign hsign⟩
  | underscored hreal =>
    subst hreal
    exact ⟨underscore, bytes, rfl, by simp [classes_underscore]⟩

end Numeral

/-- The token of a cut and its diagnostics say what they should of the
number that was cut off. -/
theorem Lexeme.Cut.scannedAs (cut : Lexeme.Cut) {n : Numeral} (h : cut.lexeme = .numeral n)
    (classes : ClassTable) (mode : Mode) (fold : Bool) (start : Nat) :
    n.ScannedAs mode fold (cut.scanned classes mode fold start).token
      (cut.scanned classes mode fold start).diagnostics := by
  simp only [Lexeme.Cut.scanned, h]
  constructor
  · rfl
  · rfl
  · rfl
  · rfl
  · cases mode <;> rfl
  · cases mode <;> rfl

namespace Cursor

open Lexeme Numeral

variable {cursor : Cursor} {mode : Mode} {cut : Cut} {skipped sign bytes : List UInt8}

/-- Where only delimiters stand before a byte that is none, the next
lexeme is read from that byte. -/
theorem cut?_of_remaining {first : UInt8} {rest : List UInt8} (hmode : mode ≠ .rest)
    (hremaining : cursor.remaining = skipped ++ first :: rest)
    (hskipped : ∀ b ∈ skipped, cursor.classes b = .delimiter)
    (hfirst : mode.classes cursor.classes first ≠ .delimiter) :
    let reading := Lexeme.read (mode.classes cursor.classes) mode first rest
    cursor.cut? mode = some
      { skipped, first, more := reading.more, after := reading.after, lexeme := reading.lexeme } := by
  have hdelimiters : ∀ b ∈ skipped, mode.classes cursor.classes b = .delimiter := by
    intro b hb
    rw [Mode.classes_eq_delimiter_iff]
    exact hskipped b hb
  have hcut := cut?_of_read hmode hdelimiters hfirst rest
  rw [← hremaining] at hcut
  exact hcut

/-- Where only delimiters stand before bytes with which a number begins,
the next lexeme is that number. -/
theorem cut?_of_begins (hclasses : cursor.classes = .standard) (hmode : mode ≠ .rest)
    (hremaining : cursor.remaining = skipped ++ (sign ++ bytes))
    (hskipped : ∀ b ∈ skipped, ByteClass.ofByte b = .delimiter) (hbegins : Begins mode sign bytes) :
    let run := (signed (isMinus sign)).run (mode.classes .standard) (mode == .real) bytes
    ∃ cut, cursor.cut? mode = some cut ∧ cut.skipped = skipped ∧ cut.source = sign ++ run.2.1 ∧
      cut.lexeme = .numeral run.1 := by
  obtain ⟨first, rest, heq, hfirst⟩ := hbegins.exists_cons
  obtain ⟨hlexeme, hmore⟩ := read_of_begins hbegins heq
  rw [heq] at hremaining
  rw [← hclasses] at hfirst hlexeme hmore ⊢
  have hdelimiters : ∀ b ∈ skipped, cursor.classes b = .delimiter := by
    rw [hclasses]
    exact hskipped
  have hcut := cut?_of_remaining hmode hremaining hdelimiters hfirst
  exact ⟨_, hcut, rfl, hmore, hlexeme⟩

/-- A lexeme of class digit is never cut off as the rest of the line. -/
theorem ne_rest_of_cut? (h : cursor.cut? mode = some cut)
    (hdigit : cut.lexeme.byteClass = .digit) : mode ≠ .rest := by
  rintro rfl
  unfold Cursor.cut? Lexeme.cut? at h
  rw [if_pos rfl] at h
  split at h
  · cases h
  · cases h
    cases hdigit

/-- With nothing pinned, the next lexeme is of class digit only where a
number begins behind delimiters. -/
theorem begins_of_cut? (hclasses : cursor.classes = .standard) (h : cursor.cut? mode = some cut)
    (hdigit : cut.lexeme.byteClass = .digit) :
    mode ≠ .rest ∧ (∀ b ∈ cut.skipped, ByteClass.ofByte b = .delimiter) ∧
      ∃ sign bytes, cursor.remaining = cut.skipped ++ (sign ++ bytes) ∧ Begins mode sign bytes := by
  have hmode := ne_rest_of_cut? h hdigit
  obtain ⟨hskipped, hfirst, hread⟩ := read_of_cut? hmode h
  have hbytes := Cut.bytes_of_cut? h
  rw [hclasses] at hskipped hfirst hread
  obtain ⟨sign, bytes, heq, hbegins⟩ := begins_of_read hfirst (by rw [hread]; exact hdigit)
  refine ⟨hmode, ?_, sign, bytes, ?_, hbegins⟩
  · intro b hb
    have hdel := hskipped b hb
    rwa [Mode.classes_eq_delimiter_iff] at hdel
  · rw [heq, ← hbytes, Cut.source, List.append_assoc, List.cons_append]

/-- The scan of a number returns a token that covers the number's bytes,
and adds to the diagnostics only what is reported about the number. -/
theorem scan_of_numeral {n : Numeral} (h : cursor.cut? mode = some cut)
    (hlexeme : cut.lexeme = .numeral n) (fold : Bool) :
    ∃ token next reported, cursor.scan mode fold = (some token, next) ∧
      next.diagnostics = cursor.diagnostics ++ reported ∧
      token.span = ⟨cursor.position + cut.skipped.length,
        cursor.position + cut.skipped.length + cut.source.length⟩ ∧
      n.ScannedAs mode fold token reported := by
  let scanned := cut.scanned (mode.classes cursor.classes) mode fold
    (cursor.position + cut.skipped.length)
  have hscan : (cursor.scan mode fold).1 = some scanned.token ∧
      (cursor.scan mode fold).2.diagnostics = cursor.diagnostics ++ scanned.diagnostics := by
    rw [scan, h]
    exact ⟨rfl, rfl⟩
  exact ⟨scanned.token, (cursor.scan mode fold).2, scanned.diagnostics,
    Prod.ext hscan.1 rfl, hscan.2, rfl, cut.scannedAs hlexeme ..⟩

/-- Whatever is pinned, every number that a scan returns is a sign and
a run over the bytes behind it, and its token covers just these. -/
theorem run_of_scan {pinned : List UInt8} {fold : Bool} {token : Token} {next : Cursor}
    (hclasses : cursor.classes = ClassTable.standard.pinAll pinned)
    (h : cursor.scan mode fold = (some token, next)) (hdigit : token.byteClass = .digit) :
    ∃ sign bytes reported, Begins mode sign bytes ∧
      let run := (signed (isMinus sign)).run (mode.classes cursor.classes) (mode == .real) bytes
      next.diagnostics = cursor.diagnostics ++ reported ∧
        run.1.ScannedAs mode fold token reported ∧
        token.span.slice cursor.line.bytes = sign ++ run.2.1 ∧ sign ++ run.2.1 ≠ [] := by
  cases hcut : cursor.cut? mode with
  | none =>
    rw [scan, hcut] at h
    cases h
  | some cut =>
    have hnumber : cut.lexeme.byteClass = .digit := by
      rw [scan, hcut] at h
      cases h
      exact hdigit
    obtain ⟨-, hfirst, hread⟩ := read_of_cut? (ne_rest_of_cut? hcut hnumber) hcut
    -- Pinning only takes classes away, so the number begins as it would with nothing pinned.
    have hpinned : ∀ b, mode.classes cursor.classes b = .delimiter ∨
        mode.classes cursor.classes b = mode.classes .standard b := by
      intro b
      rw [hclasses]
      exact mode.classes_pinAll_cases .standard pinned b
    obtain ⟨sign, bytes, -, hbegins, hlexeme, hsource⟩ :=
      run_of_read hpinned hfirst (by rw [hread]; exact hnumber)
    rw [hread] at hlexeme hsource
    obtain ⟨_, _, reported, hscan, hdiagnostics, hspan, hscanned⟩ :=
      scan_of_numeral hcut hlexeme fold
    obtain ⟨htoken, rfl⟩ := Prod.mk.inj (h.symm.trans hscan)
    obtain rfl := Option.some.inj htoken
    refine ⟨sign, bytes, reported, hbegins, hdiagnostics, hscanned, ?_, ?_⟩
    · rw [hspan, ← hsource]
      exact Cut.slice_line hcut rfl fold
    · rw [← hsource]
      exact List.cons_ne_nil _ _

/-- Where a number begins behind delimiters, with nothing pinned, a scan
returns its token. The token covers the sign and the bytes that the run
takes. -/
theorem scan_of_begins (hclasses : cursor.classes = .standard) (hmode : mode ≠ .rest)
    (hremaining : cursor.remaining = skipped ++ (sign ++ bytes))
    (hskipped : ∀ b ∈ skipped, ByteClass.ofByte b = .delimiter) (hbegins : Begins mode sign bytes)
    (fold : Bool) :
    let run := (signed (isMinus sign)).run (mode.classes .standard) (mode == .real) bytes
    ∃ token next reported, cursor.scan mode fold = (some token, next) ∧
      next.diagnostics = cursor.diagnostics ++ reported ∧
      token.span = ⟨cursor.position + skipped.length,
        cursor.position + skipped.length + (sign ++ run.2.1).length⟩ ∧
      run.1.ScannedAs mode fold token reported := by
  obtain ⟨cut, hcut, rfl, hsource, hlexeme⟩ :=
    cut?_of_begins hclasses hmode hremaining hskipped hbegins
  dsimp only
  rw [← hsource]
  exact scan_of_numeral hcut hlexeme fold

/-- With nothing pinned, a scan returns a token of class digit only in a
mode that reads numbers, and only where a number begins behind
delimiters. -/
theorem begins_of_scan {fold : Bool} {token : Token} {next : Cursor}
    (hclasses : cursor.classes = .standard) (h : cursor.scan mode fold = (some token, next))
    (hdigit : token.byteClass = .digit) :
    mode ≠ .rest ∧ ∃ skipped sign bytes, cursor.remaining = skipped ++ (sign ++ bytes) ∧
      (∀ b ∈ skipped, ByteClass.ofByte b = .delimiter) ∧ Begins mode sign bytes := by
  cases hcut : cursor.cut? mode with
  | none =>
    rw [scan, hcut] at h
    cases h
  | some cut =>
    have hclass : token.byteClass = cut.lexeme.byteClass := by
      rw [scan, hcut] at h
      cases h
      rfl
    obtain ⟨hmode, hskipped, sign, bytes, hremaining, hbegins⟩ :=
      begins_of_cut? hclasses hcut (hclass ▸ hdigit)
    exact ⟨hmode, cut.skipped, sign, bytes, hremaining, hskipped, hbegins⟩

end Cursor

end LineLexer
