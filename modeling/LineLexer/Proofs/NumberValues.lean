import LineLexer.Proofs.HexReading
import LineLexer.Proofs.Pinned
import LineLexer.Proofs.WrittenReals

/-!
# `LineLexer.Proofs.NumberValues`: no number of a line is a NaN

The reader of real numerals knows words for infinity and NaN besides
digits. A line cannot reach the word for NaN: the bytes that a number
takes are digits, markers, the point and signs, and no `n` is among
them. Digits can be worth more than the largest finite number, so a token
may have an infinite value. The two infinities are therefore the only
real values that a report cannot write, and has to leave out.

Nothing is assumed of the cursor. Even in a class table in which other
bytes have class digit no number takes them.

* `Numeral.isNaN_of_readReal`: a text without `n` is not read as a NaN.
* `Numeral.IsPart`: the bytes that a number can take.
* `Lexeme.numeral_of_cut?`: a property that every number of a line has, if
  the beginnings of numbers have it and every byte keeps it.
* `Lexeme.part_of_cut?`: the text of a number has only bytes that a number
  can take.
* `Cursor.isNaN_of_scan`: no scan returns a token that is worth a NaN.
* `Cursor.finite_or_infinite`: a real value is finite or infinite.
-/

set_option autoImplicit false

namespace LineLexer

open Ascii Grammar

/-! ### Texts -/

namespace Numeral

/-- What is left of a text behind its sign is an end of the text. -/
theorem splitSign_suffix (text : List Char) : (splitSign text).2 <:+ text := by
  unfold splitSign
  split
  · exact List.suffix_cons ..
  · exact List.suffix_cons ..
  · exact List.suffix_refl _

/-- Digits with a point and an exponent are not read as a NaN, however
large their value is. -/
theorem isNaN_of_decimal? {text : List Char} {value : Binary64}
    (h : decimal? text = some value) : value.isNaN = false := by
  unfold decimal? at h
  dsimp only at h
  split at h
  all_goals
    -- With a point or without one, the number is rounded from digits.
    split at h
    · cases h
    · obtain ⟨exponent, -, rfl⟩ := Option.map_eq_some_iff.mp h
      exact Binary64.isNaN_ofDecimal ..

/-- A text without the letter `n` is not read as a NaN, as the word for it
has that letter. -/
theorem isNaN_of_readReal {text : String} (htext : ∀ c ∈ text.toList, c.toLower ≠ 'n')
    {x : Binary64} (h : readReal text = .ok x) : x.isNaN = false := by
  rcases hsplit : splitSign (text.toList.map fun c => if c = '_' then '-' else c)
    with ⟨negative, rest⟩
  have hrest : ∀ c ∈ rest, c.toLower ≠ 'n' := by
    intro c hc
    have hsuffix := splitSign_suffix (text.toList.map fun c => if c = '_' then '-' else c)
    rw [hsplit] at hsuffix
    obtain ⟨d, hd, rfl⟩ := List.mem_map.mp (hsuffix.mem hc)
    split
    · decide
    · exact htext d hd
  cases hvalue : magnitude? rest with
  | none =>
    simp only [readReal, hsplit, hvalue] at h
    cases h
  | some value =>
    simp only [readReal, hsplit, hvalue] at h
    cases h
    refine Binary64.isNaN_signed ?_ negative
    unfold magnitude? at hvalue
    split at hvalue
    · cases hvalue
      decide
    split at hvalue
    · next hword =>
      -- The word has an `n`, and the text has none.
      have hmem : 'n' ∈ lowered rest := by
        rw [hword]
        decide
      obtain ⟨c, hc, hlower⟩ := List.mem_map.mp hmem
      exact absurd hlower (hrest c hc)
    · exact isNaN_of_decimal? hvalue

/-- The bytes that a number can take: hexadecimal digits and markers, the
point, and signs with the underscore among them. -/
def IsPart (b : UInt8) : Prop :=
  isHexMarkerByte b = true ∨ isHexDigit b = true ∨ b = '.'.toUInt8 ∨ isSignByte b = true

/-- A byte that a number can take is ASCII, and it is no `n`, neither in
capitals nor without. -/
theorem IsPart.not_n {b : UInt8} (h : IsPart b) (fold : Bool) :
    b < 0x80 ∧ (shown fold b).toLower ≠ 'n' := by
  revert b
  unfold IsPart
  apply forall_byte
  cases fold <;> decide +kernel

/-- The value of a number is no NaN, if its text has only bytes that a
number can take. A fault is recovered from with a zero. -/
theorem isNaN_recovered {n : Numeral} (hpart : ∀ b ∈ n.text, IsPart b) (fold : Bool)
    (value : Int) :
    (recovered .zero (n.realValue? (Utf8.decode (folded fold n.text)) value)).isNaN = false := by
  unfold realValue?
  split
  · exact Binary64.isNaN_ofInt value
  · cases hread : readReal (Utf8.decode (folded fold n.text)) with
    | error fault =>
      show Binary64.zero.isNaN = false
      decide
    | ok x =>
      refine Binary64.isNaN_signed (isNaN_of_readReal ?_ hread) _
      rw [toList_decode_folded fold fun b hb => ((hpart b hb).not_n fold).1]
      intro c hc
      obtain ⟨b, hb, rfl⟩ := List.mem_map.mp hc
      exact ((hpart b hb).not_n fold).2

end Numeral

/-! ### Numbers of a line -/

namespace Lexeme
variable {classes : ClassTable} {mode : Mode} {bytes : List UInt8} {cut : Cut} {n : Numeral}

/-- A property of every number that is cut off a line, in any class table:
the numbers that have only a sign have it, and no byte that is taken takes
it away. -/
theorem numeral_of_cut? {P : Numeral → Prop} (hsigned : ∀ negative, P (.signed negative))
    (hstep : ∀ {reals : Bool} {n next : Numeral} {b : UInt8} {rest : List UInt8},
      P n → Numeral.Took reals n b rest next → P next)
    (h : cut? classes mode bytes = some cut) (hlexeme : cut.lexeme = .numeral n) : P n := by
  -- What the first byte makes of a number, and the run behind it.
  have hdigit (negative : Bool) (b : UInt8) :
      P (((Numeral.signed negative).nextDigit? b).getD (.signed negative)) := by
    cases hnext : (Numeral.signed negative).nextDigit? b with
    | none => exact hsigned negative
    | some next =>
      have htook : Numeral.Took false (.signed negative) b [] next :=
        Numeral.took_of_nextDigit? hnext
      exact hstep (hsigned negative) htook
  have hrun {n : Numeral} (hn : P n) (rest : List UInt8) :
      P (n.run classes (mode == .real) rest).1 :=
    Numeral.run_invariant classes (mode == .real) hstep hn rest
  have hmode : mode ≠ .rest := by
    rintro rfl
    unfold cut? at h
    rw [if_pos rfl] at h
    split at h <;> cases h
    cases hlexeme
  obtain ⟨-, hfirst, hread⟩ := read_of_cut? hmode h
  have hnumeral : (read classes mode cut.first (cut.more ++ cut.after)).lexeme = .numeral n := by
    rw [hread, hlexeme]
  -- A number begins with a byte of class digit, or with a sign before one.
  rcases class_of_number hfirst (by rw [hnumeral]; rfl) with hclass | ⟨hclass, hsign⟩
  · rw [read_of_digit hclass] at hnumeral
    cases hnumeral
    refine hrun ?_ _
    unfold Numeral.start
    split
    · exact hsigned true
    · exact hdigit false _
  · rw [read_of_operator hclass] at hnumeral
    cases hrest : cut.more ++ cut.after with
    | nil =>
      rw [hrest] at hsign
      simp [beginsSigned] at hsign
    | cons second behind =>
      rw [hrest] at hsign hnumeral
      rw [readOperator_of_signed hsign] at hnumeral
      cases hnumeral
      exact hrun (hdigit _ _) _

/-- Every byte in the text of a number that is cut off a line is one that
a number can take. -/
theorem part_of_cut? (h : cut? classes mode bytes = some cut)
    (hlexeme : cut.lexeme = .numeral n) : ∀ b ∈ n.text, Numeral.IsPart b := by
  have hsigned (negative : Bool) : ∀ b ∈ (Numeral.signed negative).text, Numeral.IsPart b :=
    fun _ hb => nomatch hb
  refine numeral_of_cut? (P := fun n => ∀ b ∈ n.text, Numeral.IsPart b) hsigned ?_ h hlexeme
  intro reals n next b rest hn htook c hc
  rw [(Numeral.text_of_took htook).1] at hc
  rcases List.mem_append.mp hc with hc | hc
  · exact hn c hc
  · obtain rfl := List.mem_singleton.mp (List.mem_of_mem_filter hc)
    exact Numeral.part_of_took htook

end Lexeme

/-! ### Values -/

/-- A number that is neither finite nor a NaN is one of the two
infinities. -/
theorem Binary64.eq_infinity {x : Binary64} (hfinite : x.isFinite = false)
    (hnan : x.isNaN = false) : x = infinity.signed x.isNegative := by
  have hle := isNaN_eq_false_iff.mp hnan
  have hinfinity : infinity.magnitude = 0x7FF * 2 ^ 52 := by decide
  have hfield : x.exponentField = x.magnitude / 2 ^ 52 := rfl
  have hinfinite : x.exponentField = 0x7FF := by simpa [isFinite] using hfinite
  have hmagnitude : x.magnitude = infinity.magnitude := by omega
  have hunsigned : x.unsigned = infinity := by
    rw [unsigned, hmagnitude]
    rfl
  rw [← hunsigned, signed_unsigned]

namespace Cursor
variable {cursor : Cursor} {mode : Mode} {fold : Bool} {token : Token} {x : Binary64}

/-- Whatever the cursor and its class table are, no scan returns a token
that has a NaN as its value. -/
theorem isNaN_of_scan (h : (cursor.scan mode fold).1 = some token)
    (hvalue : token.realValue = some x) : x.isNaN = false := by
  cases hcut : cursor.cut? mode with
  | none =>
    rw [scan, hcut] at h
    cases h
  | some cut =>
    rw [scan, hcut] at h
    cases h
    obtain ⟨value, hreal, rfl⟩ := Option.map_eq_some_iff.mp hvalue
    cases mode with
    | plain | word | rest => cases hreal
    | real =>
      cases hlexeme : cut.lexeme with
      | operator | word | quoted =>
        rw [hlexeme] at hreal
        cases hreal
      | numeral n =>
        rw [hlexeme] at hreal
        obtain rfl := Option.some.inj hreal
        exact Numeral.isNaN_recovered (Lexeme.part_of_cut? hcut hlexeme) _ _

/-- The real value of a token that a scan returns is finite, or it is one
of the two infinities. -/
theorem finite_or_infinite (h : (cursor.scan mode fold).1 = some token)
    (hvalue : token.realValue = some x) :
    x.isFinite = true ∨ x = Binary64.infinity ∨ x = Binary64.infinity.neg := by
  cases hfinite : x.isFinite with
  | true => exact Or.inl rfl
  | false =>
    have heq := Binary64.eq_infinity hfinite (isNaN_of_scan h hvalue)
    cases hnegative : x.isNegative with
    | false => exact Or.inr (Or.inl (by rw [heq, hnegative]; rfl))
    | true => exact Or.inr (Or.inr (by rw [heq, hnegative]; rfl))

end Cursor

end LineLexer
