import Mathlib.Data.List.Infix
import LineLexer.Proofs.RealLiteral
import LineLexer.Proofs.Whole

/-!
# `LineLexer.Proofs.WholeNumbers`: lines without real numbers

Real mode reads more than plain mode: it lends two bytes the class of
digits, and a number may take an exponent and its sign. In a line with
neither of these bytes, and with no `e` between a digit and what could
be the rest of an exponent, it reads the same.

* `WithoutReals`: the condition on the line.
* `Numeral.WithoutExponent`: what holds of a number all the way
  through such a line. Its last byte is a decimal digit, or hexadecimal
  letters can follow, so no `e` that it reaches marks an exponent.
* `Numeral.run_real`, `Lexeme.cut?_real`, `scannedFrom_real`: the same
  number, the same lexeme and the same tokens in both modes.
* `scanLine_real_plain`: whole lines have the same tokens but for their
  values as real numbers, and the same diagnostics if nothing is pinned.
-/

set_option autoImplicit false

namespace LineLexer

open Ascii Numeral

/-! ### The lines -/

/-- A line in which nothing makes a number a real one: there is no point,
no underscore, and no `e` that could mark an exponent. -/
structure WithoutReals (line : List UInt8) : Prop where
  point : '.'.toUInt8 ∉ line
  underscore : underscore ∉ line
  /-- No `e` stands between a digit and another digit or a sign. -/
  marker : ∀ d e s, [d, e, s] <:+: line → isDigit d = true → isExponentMarker e = true →
    isDigit s = false ∧ isSign s = false

/-- Whether the bytes begin with a digit, the marker of an exponent, and
a digit or sign. -/
def beginsExponent : List UInt8 → Bool
  | d :: e :: s :: _ => isDigit d && isExponentMarker e && (isDigit s || isSign s)
  | _ => false

/-- No `e` in a line could mark an exponent exactly if no end of the line
begins with a digit, an `e`, and a digit or sign. The second condition is
decided by looking at each end of the line. -/
theorem forall_marker_iff (line : List UInt8) :
    (∀ d e s, [d, e, s] <:+: line → isDigit d = true → isExponentMarker e = true →
      isDigit s = false ∧ isSign s = false) ↔ ∀ back ∈ line.tails, beginsExponent back = false := by
  constructor
  · intro h back hback
    match back, (List.mem_tails back line).mp hback with
    | [], _ => rfl
    | [_], _ => rfl
    | [_, _], _ => rfl
    | d :: e :: s :: more, hsuffix =>
      have hwithin : [d, e, s] <:+: line :=
        (List.prefix_append [d, e, s] more).isInfix.trans hsuffix.isInfix
      have hdes := h d e s hwithin
      by_contra hbegins
      simp only [beginsExponent, Bool.not_eq_false, Bool.and_eq_true, Bool.or_eq_true] at hbegins
      obtain ⟨⟨hd, he⟩, hs⟩ := hbegins
      obtain ⟨hdigit, hsign⟩ := hdes hd he
      simp [hdigit, hsign] at hs
  · intro h d e s hwithin hd he
    obtain ⟨back, ⟨more, rfl⟩, hsuffix⟩ := List.infix_iff_prefix_suffix.mp hwithin
    have hback := h _ ((List.mem_tails _ line).mpr hsuffix)
    simpa [beginsExponent, hd, he] using hback

instance (line : List UInt8) : Decidable (WithoutReals line) :=
  decidable_of_iff ('.'.toUInt8 ∉ line ∧ Numeral.underscore ∉ line ∧
      ∀ back ∈ line.tails, beginsExponent back = false)
    ⟨fun ⟨hpoint, hunderscore, hback⟩ => ⟨hpoint, hunderscore, (forall_marker_iff line).mpr hback⟩,
      fun h => ⟨h.point, h.underscore, (forall_marker_iff line).mp h.marker⟩⟩

/-- Every part of a line in which nothing makes a number a real one is
such a line. -/
theorem WithoutReals.of_infix {part line : List UInt8} (h : WithoutReals line)
    (hpart : part <:+: line) : WithoutReals part where
  point hb := h.point (hpart.subset hb)
  underscore hb := h.underscore (hpart.subset hb)
  marker d e s hwithin := h.marker d e s (hwithin.trans hpart)

/-- An `e` behind a digit, in a line in which nothing makes a number a
real one, has no exponent behind it. -/
theorem WithoutReals.exponentAhead {d e : UInt8} {rest : List UInt8}
    (h : WithoutReals (d :: e :: rest)) (hd : isDigit d = true) (he : isExponentMarker e = true) :
    exponentAhead rest = false := by
  cases rest with
  | nil => rfl
  | cons s more =>
    obtain ⟨hdigit, hsign⟩ := h.marker d e s (List.prefix_append [d, e, s] more).isInfix hd he
    have hunderscore : s ≠ Numeral.underscore := by
      rintro rfl
      exact h.underscore (by simp)
    simp [Numeral.exponentAhead, hdigit, hsign, hunderscore]

/-- The table `reals` differs from `plain` in the point and the
underscore only, and the digits of `plain` are the decimal ones. -/
structure LendsReals (reals plain : ClassTable) : Prop where
  agree : ∀ b, b ≠ '.'.toUInt8 → b ≠ underscore → reals b = plain b
  digit : ∀ b, plain b = .digit → isDigit b = true

/-- The two tables agree on the bytes of a line in which nothing makes a
number a real one. -/
theorem LendsReals.eq_of_mem {reals plain : ClassTable} (h : LendsReals reals plain)
    {line : List UInt8} (hline : WithoutReals line) : ∀ b ∈ line, reals b = plain b := by
  intro b hb
  refine h.agree b ?_ ?_
  · rintro rfl
    exact hline.point hb
  · rintro rfl
    exact hline.underscore hb

/-- With any bytes pinned, the table of real mode differs from that of
plain mode in the point and the underscore only. -/
theorem lendsReals_classes (fold fold' : Bool) (pinned : List UInt8) :
    LendsReals (Settings.mk fold pinned .real).classes
      (Settings.mk fold' pinned .plain).classes := by
  constructor
  · intro b hpoint hunderscore
    have hlent : ¬ (b = '.'.toUInt8 ∨ b = '_'.toUInt8) := not_or.mpr ⟨hpoint, hunderscore⟩
    rw [Settings.classes, Settings.classes, Mode.classes_pinAll, Mode.classes_pinAll,
      Mode.classes_real, if_neg hlent]
    rfl
  · intro b hb
    rw [Settings.classes, Mode.classes_pinAll] at hb
    split at hb
    · cases hb
    · exact classes_plain_eq_digit_iff.mp hb

/-! ### Numbers -/

namespace Numeral

section Run
variable {reals plain : ClassTable} {n next : Numeral} {last b : UInt8} {rest bytes : List UInt8}

/-- A number without exponent that has taken the byte `last`, before the
bytes `ahead`. An `e` that comes next is no marker of an exponent: either
the number is hexadecimal, or a digit stands in front, or the `e` is a
hexadecimal digit too. -/
structure WithoutExponent (n : Numeral) (last : UInt8) (ahead : List UInt8) : Prop where
  exponent : n.exponent = false
  hex : n.hexPrefix = true → n.hex = true
  last : n.hex = true ∨ isDigit last = true ∨ suffixAhead ahead = true

/-- A number that begins with a sign and a decimal digit has no exponent
behind the digit. -/
theorem withoutExponent_startSigned (sign : UInt8) (hb : isDigit b = true)
    (ahead : List UInt8) : (startSigned sign b).WithoutExponent b ahead := by
  rw [startSigned, nextDigit?, if_pos hb]
  exact ⟨rfl, (absurd · Bool.false_ne_true), Or.inr (Or.inl hb)⟩

/-- A number that begins with a decimal digit has no exponent behind the
digit. -/
theorem withoutExponent_start (hb : isDigit b = true) (ahead : List UInt8) :
    (start b).WithoutExponent b ahead := by
  have hplain : b ≠ underscore := by
    rintro rfl
    cases hb
  rw [start, if_neg (by simp [hplain]), nextDigit?, if_pos hb]
  exact ⟨rfl, (absurd · Bool.false_ne_true), Or.inr (Or.inl hb)⟩

/-- A letter means the same to a number without exponent in both modes: an
`e` is a hexadecimal digit to it, or it is left. -/
theorem WithoutExponent.nextLetter? (hn : n.WithoutExponent last (b :: rest))
    (hline : WithoutReals (last :: b :: rest)) :
    n.nextLetter? true b rest = n.nextLetter? false b rest := by
  unfold Numeral.nextLetter?
  by_cases hhex : (isHexDigit b && (n.hexPrefix || suffixAhead rest)) = true
  · rw [if_pos hhex, if_pos hhex]
  · rw [if_neg hhex, if_neg hhex]
    -- The arm of exponents is the only one that asks for the mode.
    have hmarker :
        (isExponentMarker b && !(n.exponent || n.hex) && exponentAhead rest) = false := by
      by_contra htaken
      simp only [Bool.not_eq_false, Bool.and_eq_true, Bool.not_eq_true', Bool.or_eq_false_iff]
        at htaken
      obtain ⟨⟨hb, -, hdecimal⟩, hahead⟩ := htaken
      rcases hn.last with hmarked | hdigit | hsuffix
      · rw [hdecimal] at hmarked
        cases hmarked
      · rw [hline.exponentAhead hdigit hb] at hahead
        cases hahead
      · have hletter := isHexDigit_of_isExponentMarker hb
        rw [suffixAhead_cons, if_pos hletter] at hsuffix
        simp [hletter, hsuffix] at hhex
    simp only [Bool.and_true, Bool.and_false, Bool.false_and, hmarker]

/-- A number without exponent takes the same byte in both modes. -/
theorem WithoutExponent.next? (hn : n.WithoutExponent last (b :: rest))
    (hline : WithoutReals (last :: b :: rest)) (hb : reals b = plain b) :
    n.next? reals true b rest = n.next? plain false b rest := by
  unfold Numeral.next?
  rw [hb]
  cases plain b with
  | delimiter => rfl
  | operator => simp [nextSign?, endsInMarker, hn.exponent]
  | digit => rfl
  | other => exact hn.nextLetter? hline

/-- A number without exponent is still one after the byte that it
takes. -/
theorem WithoutExponent.took (hn : n.WithoutExponent last (b :: rest))
    (hline : WithoutReals (last :: b :: rest)) (h : Took false n b rest next) :
    next.WithoutExponent b rest := by
  cases h with
  | digit hb => exact ⟨hn.exponent, hn.hex, Or.inr (Or.inl hb)⟩
  | point hb hfree => exact absurd (by simp [hb]) hline.point
  | underscore hb hends => exact absurd (by simp [hb]) hline.underscore
  | sign hb hends hdigit => simp [endsInMarker, hn.exponent] at hends
  | prefixMarker hb => exact ⟨hn.exponent, fun _ => rfl, Or.inl rfl⟩
  | suffixMarker hb => exact ⟨hn.exponent, fun _ => rfl, Or.inl rfl⟩
  | hexDigit hb hmarked =>
    refine ⟨hn.exponent, hn.hex, ?_⟩
    rcases hmarked with hprefix | hsuffix
    · exact Or.inl (hn.hex hprefix)
    · exact Or.inr (Or.inr hsuffix)
  | exponent hb hreals hfree hahead => cases hreals

/-- The run of a number without exponent is the same in both modes, over
the bytes of a line in which nothing makes a number a real one. -/
theorem run_real (htable : LendsReals reals plain) (hn : n.WithoutExponent last bytes)
    (hline : WithoutReals (last :: bytes)) : n.run reals true bytes = n.run plain false bytes := by
  -- The byte that was taken last is part of the line that the invariant needs.
  induction bytes generalizing n last with
  | nil => rfl
  | cons b rest ih =>
    have hsame := hn.next? hline (htable.eq_of_mem hline b (by simp))
    cases hnext : n.next? plain false b rest with
    | none =>
      rw [run_of_next?_eq_none hnext, run_of_next?_eq_none (hsame.trans hnext)]
    | some next =>
      rw [run_of_next?_eq_some hnext, run_of_next?_eq_some (hsame.trans hnext),
        ih (hn.took hline (took_of_next? hnext)) (hline.of_infix (List.suffix_cons _ _).isInfix)]

end Run

end Numeral

/-! ### Lexemes -/

namespace Lexeme

section Read
variable {reals plain : ClassTable} {first : UInt8} {rest : List UInt8}

/-- The lexeme of a number without exponent is the same in both modes, in
a line in which nothing makes a number a real one. -/
theorem readNumeral_real (htable : LendsReals reals plain) {n : Numeral} {last : UInt8}
    (hn : n.WithoutExponent last rest) (hline : WithoutReals (last :: rest)) :
    readNumeral reals .real n rest = readNumeral plain .plain n rest := by
  have hrun : n.run reals (Mode.real == .real) rest = n.run plain (Mode.plain == .real) rest :=
    run_real htable hn hline
  rw [readNumeral, readNumeral, hrun]

/-- The lexeme that begins with a byte of class other is the same in both
modes, in a line in which nothing makes a number a real one. -/
theorem readWord_real (htable : LendsReals reals plain) (hline : WithoutReals (first :: rest)) :
    readWord reals first rest = readWord plain first rest := by
  have hagree : ∀ b ∈ rest, (reals b == .other) = (plain b == .other) := by
    intro b hb
    rw [htable.eq_of_mem hline b (List.mem_cons_of_mem _ hb)]
  obtain ⟨htake, hdrop⟩ := splitWhile_congr hagree
  rw [readWord, readWord, htake, hdrop]

/-- The lexeme that begins with a byte of class operator, a signed number
included, is the same in both modes, in a line in which nothing makes a
number a real one. -/
theorem readOperator_real (htable : LendsReals reals plain)
    (hline : WithoutReals (first :: rest)) :
    readOperator reals .real first rest = readOperator plain .plain first rest := by
  -- Whatever is read, the class of one byte behind decides it.
  have hhead : ∀ b ∈ rest.head?, reals b = plain b := by
    intro b hb
    exact htable.eq_of_mem hline b (List.mem_cons_of_mem _ (List.mem_of_mem_head? hb))
  have hsame : beginsSigned reals first rest = beginsSigned plain first rest := by
    cases rest with
    | nil => rfl
    | cons second behind => simp [beginsSigned, hhead second rfl]
  have hbytes : operatorBytes reals first rest = operatorBytes plain first rest := by
    cases rest with
    | nil => rfl
    | cons second behind => simp [operatorBytes, List.filter_cons, hhead second rfl]
  cases hsigned : beginsSigned plain first rest with
  | true =>
    cases rest with
    | nil => simp [beginsSigned] at hsigned
    | cons second behind =>
      have hsecond : isDigit second = true := by
        refine htable.digit second ?_
        simp only [beginsSigned, List.head?_cons, Option.any_some, Bool.and_eq_true,
          beq_iff_eq] at hsigned
        exact hsigned.2.1
      rw [readOperator_of_signed hsigned, readOperator_of_signed (hsame.trans hsigned),
        readNumeral_real htable (withoutExponent_startSigned first hsecond behind)
          (hline.of_infix (List.suffix_cons _ _).isInfix)]
  | false =>
    cases hread : Operator.read? (operatorBytes plain first rest) with
    | none =>
      rw [readOperator_of_none hsigned hread,
        readOperator_of_none (hsame.trans hsigned) (hbytes ▸ hread), readWord_real htable hline]
    | some found =>
      rw [readOperator_of_not_signed hsigned hread,
        readOperator_of_not_signed (hsame.trans hsigned) (hbytes ▸ hread)]

/-- The lexeme that begins with any byte but a delimiter is the same in
both modes, in a line in which nothing makes a number a real one. -/
theorem read_real (htable : LendsReals reals plain) (hline : WithoutReals (first :: rest))
    (hfirst : plain first ≠ .delimiter) :
    read reals .real first rest = read plain .plain first rest := by
  have hsame := htable.eq_of_mem hline first List.mem_cons_self
  cases hclass : plain first with
  | delimiter => exact absurd hclass hfirst
  | digit =>
    rw [read_of_digit hclass, read_of_digit (hsame.trans hclass),
      readNumeral_real htable (withoutExponent_start (htable.digit first hclass) rest) hline]
  | operator =>
    rw [read_of_operator hclass, read_of_operator (hsame.trans hclass),
      readOperator_real htable hline]
  | other =>
    cases hquote : isQuote first with
    | true =>
      rw [read_of_quote hclass hquote, read_of_quote (hsame.trans hclass) hquote]
      rfl
    | false =>
      rw [read_of_word hclass hquote, read_of_word (hsame.trans hclass) hquote,
        readWord_real htable hline]

end Read

/-- The next cut is the same in both modes, in a line in which nothing
makes a number a real one. -/
theorem cut?_real {reals plain : ClassTable} (htable : LendsReals reals plain)
    {bytes : List UInt8} (hline : WithoutReals bytes) :
    cut? reals .real bytes = cut? plain .plain bytes := by
  have hagree : ∀ b ∈ bytes, (reals b == .delimiter) = (plain b == .delimiter) := by
    intro b hb
    rw [htable.eq_of_mem hline b hb]
  obtain ⟨htake, hdrop⟩ := splitWhile_congr hagree
  have hsuffix := bytes.dropWhile_suffix fun b => plain b == .delimiter
  have hstop := head?_dropWhile_stop (fun b => plain b == .delimiter) bytes
  unfold cut?
  rw [if_neg (by decide), if_neg (by decide), htake, hdrop]
  cases hrest : bytes.dropWhile fun b => plain b == .delimiter with
  | nil => rfl
  | cons first rest =>
    rw [hrest] at hsuffix hstop
    have hread := read_real htable (hline.of_infix hsuffix.isInfix)
      (by simpa using hstop first rfl)
    simp only [hread]

end Lexeme

/-! ### Tokens -/

/-- The token without its value as a real number. -/
def Token.withoutReal (token : Token) : Token := { token with realValue := none }

section Lines
variable {reals plain : ClassTable} {bytes : List UInt8} {cut : Lexeme.Cut}

/-- The tokens of one cut in the two modes differ in their values as real
numbers alone. -/
theorem Lexeme.Cut.withoutReal_scanned (cut : Lexeme.Cut)
    (hafter : ∀ b ∈ cut.after.head?, reals b = plain b) (fold : Bool) (start : Nat) :
    (cut.scanned reals .real fold start).token.withoutReal
      = (cut.scanned plain .plain true start).token := by
  have hclass : (cut.after.head?.map reals).getD .delimiter
      = (cut.after.head?.map plain).getD .delimiter := by
    cases hhead : cut.after.head? with
    | none => rfl
    | some b => simp [hafter b hhead]
  simp only [Lexeme.Cut.scanned, Token.withoutReal, hclass]
  rfl

/-- In real mode a token has a value as a real number exactly if it is a
number. -/
theorem Lexeme.Cut.isSome_realValue (cut : Lexeme.Cut) (classes : ClassTable) (fold : Bool)
    (start : Nat) :
    let token := (cut.scanned classes .real fold start).token
    token.realValue.isSome = true ↔ token.byteClass = .digit := by
  simp only [Lexeme.Cut.scanned]
  cases cut.lexeme <;> simp [Lexeme.realValue?, Lexeme.byteClass]

/-- Two functions that agree on what every cut of a line makes in the two
modes agree on all tokens of the line, in which nothing makes a number a
real one. -/
theorem scannedFrom_real {α : Type} {f g : Scanned → α} (htable : LendsReals reals plain)
    (hline : WithoutReals bytes) {fold : Bool}
    (hcut : ∀ back cut start, back <:+ bytes → Lexeme.cut? reals .real back = some cut →
      f (cut.scanned reals .real fold start) = g (cut.scanned plain .plain true start))
    (start : Nat) :
    (scannedFrom reals .real fold start bytes).map f
      = (scannedFrom plain .plain true start bytes).map g := by
  fun_induction scannedFrom reals .real fold start bytes with
  | case1 start bytes h =>
    rw [Lexeme.cut?_real htable hline] at h
    rw [scannedFrom_of_none h]
    rfl
  | case2 start bytes cut h first ih =>
    have hafter : cut.after <:+ bytes := ⟨_, Lexeme.Cut.bytes_of_cut? h⟩
    have hsame := hcut bytes cut first List.suffix_rfl h
    rw [List.map_cons, hsame, ih (hline.of_infix hafter.isInfix)
      fun back cut start hback => hcut back cut start (hback.trans hafter)]
    rw [Lexeme.cut?_real htable hline] at h
    rw [scannedFrom_of_some h, List.map_cons]

/-- The tokens of the two modes differ in their values as real numbers
alone, in a line in which nothing makes a number a real one. -/
theorem tokens_real (htable : LendsReals reals plain) (hline : WithoutReals bytes) (fold : Bool)
    (start : Nat) :
    (scannedFrom reals .real fold start bytes).map (fun s => s.token.withoutReal)
      = (scannedFrom plain .plain true start bytes).map Scanned.token := by
  refine scannedFrom_real htable hline ?_ start
  intro back cut start hback h
  refine cut.withoutReal_scanned ?_ fold start
  intro b hb
  refine htable.eq_of_mem hline b (hback.subset ?_)
  rw [← Lexeme.Cut.bytes_of_cut? h]
  exact List.mem_append_right _ (List.mem_of_mem_head? hb)

/-! ### Diagnostics -/

/-- A number whose text begins with a digit has a digit before its
exponent. -/
theorem Numeral.Parts.any_isDigit {n : Numeral} {whole fraction exponent more : List UInt8}
    {d : UInt8} (h : n.Parts whole fraction exponent) (htext : n.text = d :: more)
    (hd : isDigit d = true) : (whole ++ fraction).any isDigit = true := by
  rw [← takeWhile_mantissa h.mantissa h.exponent_mem, List.append_assoc, ← h.text, htext,
    List.takeWhile_cons_of_pos (by simp [isExponentMarker_eq_false (Or.inl hd)]), List.any_cons,
    hd, Bool.true_or]

/-- A number that is a run over bytes that begin with a digit has a value
as a real number, so no fault is reported about that. -/
theorem Numeral.faultOf_realValue? {n : Numeral} {fold negative : Bool} {d : UInt8}
    {rest : List UInt8} {token : Token} {reported : List Diagnostic} (hd : isDigit d = true)
    (hn : n = ((signed negative).run (Mode.real.classes .standard) (Mode.real == .real)
      (d :: rest)).1)
    (h : n.ScannedAs .real fold token reported) :
    faultOf (n.realValue? token.text token.intValue) = [] := by
  cases hhex : n.hex with
  | true =>
    rw [realValue?, if_pos hhex]
    rfl
  | false =>
    have hclass : Mode.real.classes .standard d = .digit :=
      classes_real_eq_digit_iff.mpr (Or.inl hd)
    have hplain : d ≠ underscore := by
      rintro rfl
      cases hd
    have hmode : Mode.real ≠ .word := by decide
    obtain ⟨whole, fraction, exponent, hparts⟩ :=
      parts_of_run hmode negative (d :: rest) (hn ▸ hhex)
    rw [← hn] at hparts
    -- The first byte is taken, and without a marker all bytes stay in the text.
    obtain ⟨-, -, htext⟩ := kept_of_run (Mode.real.classes .standard) (Mode.real == .real)
      (signed negative) (d :: rest)
    rw [← hn, run_signed negative hclass hclass hplain] at htext
    have hread := readReal_of_scanned h hparts
    rw [if_pos (hparts.any_isDigit (htext hhex) hd)] at hread
    obtain ⟨value, hvalue⟩ := hread
    rw [realValue?_of_parts hparts, hvalue]
    rfl

/-- With nothing pinned, a number in a line in which nothing makes it a
real one is a run over bytes that begin with a digit. -/
theorem Lexeme.run_of_withoutReals
    (h : Lexeme.cut? (Mode.real.classes .standard) .real bytes = some cut)
    (hline : WithoutReals bytes) (hdigit : cut.lexeme.byteClass = .digit) :
    ∃ negative d rest, isDigit d = true ∧ cut.lexeme = .numeral
      ((signed negative).run (Mode.real.classes .standard) (Mode.real == .real) (d :: rest)).1 := by
  obtain ⟨-, hfirst, hread⟩ := read_of_cut? (by decide) h
  obtain ⟨sign, run, heq, hbegins, hlexeme, -⟩ :=
    run_of_read (fun _ => Or.inr rfl) hfirst (by rw [hread]; exact hdigit)
  rw [hread] at hlexeme
  -- Neither the point nor the underscore stands among its bytes.
  have hmem : ∀ b ∈ sign ++ run, b ≠ '.'.toUInt8 ∧ b ≠ underscore := by
    intro b hb
    have hbytes : b ∈ bytes := by
      rw [← Cut.bytes_of_cut? h, Cut.source, List.append_assoc, List.cons_append, ← heq]
      exact List.mem_append_right _ hb
    exact ⟨fun hpoint => hline.point (hpoint ▸ hbytes),
      fun hunderscore => hline.underscore (hunderscore ▸ hbytes)⟩
  cases hbegins with
  | @unsigned b rest hclass hplain =>
    have hb := (classes_real_eq_digit_iff.mp hclass).resolve_right
      (not_or.mpr (hmem b (by simp)))
    exact ⟨_, b, rest, hb, hlexeme⟩
  | @signed s b rest hsign hclass hplain =>
    have hb := (classes_real_eq_digit_iff.mp hclass).resolve_right
      (not_or.mpr (hmem b (by simp)))
    exact ⟨_, b, rest, hb, hlexeme⟩
  | underscored hmode => exact absurd rfl (hmem underscore (by simp)).2

/-- With nothing pinned, the diagnostics of one cut are the same in the
two modes, in a line in which nothing makes a number a real one. -/
theorem Lexeme.Cut.diagnostics_real
    (h : Lexeme.cut? (Mode.real.classes .standard) .real bytes = some cut)
    (hline : WithoutReals bytes) (fold : Bool) (start : Nat) :
    (cut.scanned (Mode.real.classes .standard) .real fold start).diagnostics
      = (cut.scanned (Mode.plain.classes .standard) .plain true start).diagnostics := by
  cases hlexeme : cut.lexeme with
  | numeral n =>
    obtain ⟨negative, d, rest, hd, hrun⟩ :=
      Lexeme.run_of_withoutReals h hline (by rw [hlexeme]; rfl)
    obtain rfl : n = _ := Lexeme.numeral.inj (hlexeme.symm.trans hrun)
    have hreal := cut.scannedAs hlexeme (Mode.real.classes .standard) .real fold start
    have hplain := cut.scannedAs hlexeme (Mode.plain.classes .standard) .plain true start
    rw [hreal.reported, hplain.reported, if_pos rfl, if_neg (by decide),
      faultOf_realValue? hd rfl hreal]
    rfl
  | operator | word | quoted =>
    -- Nothing else has a value as a real number.
    simp only [Lexeme.Cut.scanned, hlexeme, Lexeme.realValue?]
    rfl

/-- With nothing pinned, the diagnostics of the two modes are the same in
a line in which nothing makes a number a real one. -/
theorem diagnostics_real (hline : WithoutReals bytes) (fold : Bool) (start : Nat) :
    (scannedFrom (Mode.real.classes .standard) .real fold start bytes).flatMap Scanned.diagnostics
      = (scannedFrom (Mode.plain.classes .standard) .plain true start bytes).flatMap
        Scanned.diagnostics := by
  have htable := lendsReals_classes fold true []
  rw [Settings.classes_of_pinned_nil, Settings.classes_of_pinned_nil] at htable
  rw [List.flatMap_def, List.flatMap_def]
  refine congrArg List.flatten (scannedFrom_real htable hline ?_ start)
  intro back cut start hback h
  exact cut.diagnostics_real h (hline.of_infix hback.isInfix) fold start

end Lines

/-! ### Whole lines -/

/-- In a line in which nothing makes a number a real one, real mode
finds the tokens that plain mode finds with letters in capitals,
whatever is pinned. They differ in their values as real numbers: in
plain mode no token has one, in real mode the numbers have. With
nothing pinned the same is reported. -/
theorem scanLine_real_plain (fold : Bool) (pinned : List UInt8) {bytes : List UInt8}
    (hline : WithoutReals (bytes.takeWhile (· != 0))) :
    let real := scanLine bytes ⟨fold, pinned, .real⟩
    let plain := scanLine bytes ⟨true, pinned, .plain⟩
    real.1.map Token.withoutReal = plain.1 ∧
      (∀ token ∈ plain.1, token.realValue = none) ∧
      (∀ token ∈ real.1, token.realValue.isSome = true ↔ token.byteClass = .digit) ∧
      (pinned = [] → real.2 = plain.2) := by
  have htokens := tokens_real (lendsReals_classes fold true pinned) hline fold 0
  dsimp only
  rw [scanLine_eq, scanLine_eq]
  dsimp only
  rw [List.map_map]
  refine ⟨htokens, ?_, ?_, ?_⟩
  · rw [← htokens]
    intro token htoken
    obtain ⟨s, -, rfl⟩ := List.mem_map.mp htoken
    rfl
  · intro token htoken
    obtain ⟨s, hs, rfl⟩ := List.mem_map.mp htoken
    obtain ⟨place, cut, -, rfl⟩ := exists_cut_of_mem_scannedFrom List.drop_zero s hs
    exact cut.isSome_realValue ..
  · rintro rfl
    rw [Settings.classes_of_pinned_nil, Settings.classes_of_pinned_nil]
    exact diagnostics_real hline fold 0

/-- The line `2e;0xE5,3EH` with the comma pinned: the first `e` is the
marker of no exponent, and the other two are digits. -/
theorem scanLine_real_plain_letters :
    let line := [0x32, 0x65, 0x3b, 0x30, 0x78, 0x45, 0x35, 0x2c, 0x33, 0x45, 0x48]
    let real := scanLine line ⟨false, [0x2c], .real⟩
    let plain := scanLine line ⟨true, [0x2c], .plain⟩
    WithoutReals (line.takeWhile (· != 0)) ∧ plain.1.map Token.text = ["2", "E", "0XE5", "3E"] ∧
      real.1.map Token.withoutReal = plain.1 ∧ (∀ token ∈ plain.1, token.realValue = none) ∧
      (∀ token ∈ real.1, token.realValue.isSome = true ↔ token.byteClass = .digit) ∧
      (scanLine line ⟨false, [], .real⟩).2 = (scanLine line ⟨true, [], .plain⟩).2 := by
  have hline : WithoutReals ([0x32, 0x65, 0x3b, 0x30, 0x78, 0x45, 0x35, 0x2c, 0x33, 0x45,
      0x48].takeWhile (· != 0)) := by decide
  obtain ⟨htokens, hplain, hreal, -⟩ := scanLine_real_plain false [0x2c] hline
  obtain ⟨-, -, -, hreported⟩ := scanLine_real_plain false [] hline
  exact ⟨hline, by decide +kernel, htokens, hplain, hreal, hreported rfl⟩

end LineLexer
