import LineLexer.Proofs.HexNumber

/-!
# `LineLexer.Proofs.MixedNumber`: real numbers with a hexadecimal marker

Where real numbers are read, a number can take a hexadecimal marker
after a point or an exponent. What it says then is no hexadecimal
number, and one would expect it to have no value. A point has none,
and neither has the sign of an exponent. The marker of an exponent
however is a hexadecimal digit. Without a sign behind it the whole
text is hexadecimal digits, and the number has the value that these
write, if that is in range.

* `Token.Unconverted`: a token of which no value is known.
* `Numeral.Unreadable`: what keeps the bytes of a number from being
  read.
* `Numeral.Evident`: a point and an exponent are there to be seen in
  the text.
* `Cursor.unconverted_iff`: a real number with a hexadecimal marker has
  no value exactly if its bytes cannot be read.
* `Cursor.unconverted_ne`: the number `1e5x` has a value.
-/

set_option autoImplicit false

namespace LineLexer

open Ascii Grammar

/-- The token is zero, as an integer and as a real number, and one
diagnostic is reported about it. -/
structure Token.Unconverted (token : Token) (reported : List Diagnostic) : Prop where
  intValue : token.intValue = 0
  realValue : token.realValue = some Binary64.zero
  reported : reported.length = 1

namespace Numeral

/-- The bytes of a number, its sign and its markers apart, are no
hexadecimal number in range. -/
def Unreadable (bytes : List UInt8) : Prop :=
  (∃ b ∈ bytes, b = '.'.toUInt8 ∨ isSignByte b = true) ∨ 2 ^ 63 ≤ hexWritten bytes

/-! ### The point and the exponent in the text -/

/-- The point that a number has is in its text, and so is the marker of
its exponent. -/
structure Evident (n : Numeral) : Prop where
  point : n.point = true → '.'.toUInt8 ∈ n.text
  exponent : n.exponent = true → ∃ b ∈ n.text, isExponentMarker b = true

/-- A number of which only the sign has been read has neither point nor
exponent, so all that it has can be seen. -/
theorem evident_signed (negative : Bool) : Evident (signed negative) where
  point h := nomatch h
  exponent h := nomatch h

section Step
variable {reals : Bool} {n next : Numeral} {b : UInt8} {rest : List UInt8}

/-- If a number's point and exponent can be seen in its text, they can be
seen in a longer text of a number that has no other part. -/
theorem Evident.of_text (h : Evident n) (htext : ∀ c ∈ n.text, c ∈ next.text)
    (hpoint : next.point = n.point) (hexponent : next.exponent = n.exponent) : Evident next where
  point hnext := htext _ (h.point (hpoint ▸ hnext))
  exponent hnext := by
    obtain ⟨c, hc, hmarker⟩ := h.exponent (hexponent ▸ hnext)
    exact ⟨c, htext c hc, hmarker⟩

/-- A byte more leaves a number's point and exponent to be seen, as such a
byte goes into the text. -/
theorem Evident.took (h : Evident n) (htook : Took reals n b rest next) : Evident next := by
  have htext : ∀ c ∈ n.text, c ∈ next.text := by
    intro c hc
    rw [(text_of_took htook).1]
    exact List.mem_append_left _ hc
  have hkept : b ∈ (n.keep b).text := by simp [text, keep]
  cases htook with
  | digit hb => exact h.of_text htext rfl rfl
  | point hb hfree =>
    have hsame : Evident (n.keep b) := h.of_text htext rfl rfl
    exact ⟨fun _ => hb ▸ hkept, hsame.exponent⟩
  | underscore hb hends => exact h.of_text htext rfl rfl
  | sign hb hends hdigit => exact h.of_text htext rfl rfl
  | prefixMarker hb => exact h.of_text htext rfl rfl
  | suffixMarker hb => exact h.of_text htext rfl rfl
  | hexDigit hb hmarked => exact h.of_text htext rfl rfl
  | exponent hb hreals hfree hahead =>
    have hsame : Evident (n.keep b) := h.of_text htext rfl rfl
    exact ⟨hsame.point, fun _ => ⟨b, hkept, hb⟩⟩

end Step

/-- A number's point and exponent can be seen in its text behind any
run. -/
theorem evident_run {n : Numeral} (h : Evident n) (classes : ClassTable) (reals : Bool)
    (bytes : List UInt8) : Evident (n.run classes reals bytes).1 :=
  run_invariant classes reals (fun hn htook => hn.took htook) h bytes

/-- A real number whose bytes can be read has an exponent, whose marker
is one of the hexadecimal digits. -/
theorem exponentMarker_mem_of_readable {negative reals : Bool} {classes : ClassTable}
    {bytes : List UInt8} (hreal : ((signed negative).run classes reals bytes).1.isReal = true)
    (hread : ¬ Unreadable (unmarked ((signed negative).run classes reals bytes).2.1)) :
    ∃ b ∈ unmarked ((signed negative).run classes reals bytes).2.1, isExponentMarker b = true := by
  have hevident := evident_run (evident_signed negative) classes reals bytes
  have htext := (text_of_run classes reals (signed negative) bytes).1
  rw [text_signed, List.nil_append] at htext
  generalize (signed negative).run classes reals bytes = run at *
  -- What is in the text and no marker is among the bytes that are read.
  have hmem : ∀ b ∈ run.1.text, isHexMarkerByte b = false → b ∈ unmarked run.2.1 := by
    intro b hb hplain
    rw [htext] at hb
    exact List.mem_filter.mpr ⟨List.mem_of_mem_filter hb, by simp [hplain]⟩
  rw [Numeral.isReal, Bool.or_eq_true] at hreal
  rcases hreal with hpoint | hexponent
  · exact absurd (Or.inl ⟨_, hmem _ (hevident.point hpoint) rfl, Or.inl rfl⟩) hread
  · obtain ⟨b, hb, hmarker⟩ := hevident.exponent hexponent
    refine ⟨b, hmem b hb (isHexMarkerByte_eq_false (Or.inl ?_)), hmarker⟩
    exact isHexDigit_of_isExponentMarker hmarker

/-- The bytes that a run takes, markers apart, are hexadecimal digits,
points and signs. -/
theorem part_of_unmarked {n : Numeral} {classes : ClassTable} {reals : Bool} {bytes : List UInt8}
    {b : UInt8} (hb : b ∈ unmarked (n.run classes reals bytes).2.1) :
    isHexDigit b = true ∨ b = '.'.toUInt8 ∨ isSignByte b = true := by
  obtain ⟨hmem, hplain⟩ := List.mem_filter.mp hb
  refine (part_of_run classes reals n bytes b hmem).resolve_left ?_
  simpa using hplain

end Numeral

/-! ### The token -/

namespace Token

open Numeral

variable {token : Token} {reported : List Diagnostic} {bytes : List UInt8}

/-- A token whose bytes can be read has the value that they write. -/
theorem IsHexadecimal.converted (h : token.IsHexadecimal .real reported bytes)
    (hpart : ∀ b ∈ bytes, isHexDigit b = true ∨ b = '.'.toUInt8 ∨ isSignByte b = true)
    (hread : ¬ Unreadable bytes) :
    token.intValue = (if token.flags.negative then -(hexWritten bytes : Int)
        else hexWritten bytes) ∧
      token.realValue = some (Binary64.ofInt token.intValue) ∧ reported = [] := by
  obtain ⟨hplain, hlt⟩ := not_or.mp hread
  have hdigits : ∀ b ∈ bytes, isHexDigit b = true := by
    intro b hb
    exact (hpart b hb).resolve_right fun hnot => hplain ⟨b, hb, hnot⟩
  obtain ⟨hvalue, hnone⟩ := h.small hdigits (Nat.not_le.mp hlt)
  exact ⟨hvalue, h.realValue, hnone⟩

/-- A token whose bytes cannot be read has no value. -/
theorem IsHexadecimal.unconverted (h : token.IsHexadecimal .real reported bytes)
    (hread : Unreadable bytes) : token.Unconverted reported := by
  have hfault : token.intValue = 0 ∧ reported.length = 1 := by
    by_cases hdigits : ∀ b ∈ bytes, isHexDigit b = true
    · -- Digits alone are out of range.
      have hnot : ¬ ∃ b ∈ bytes, b = '.'.toUInt8 ∨ isSignByte b = true := by
        have hall : ∀ b : UInt8, b = '.'.toUInt8 ∨ isSignByte b = true → isHexDigit b = false :=
          forall_byte (by decide +kernel)
        rintro ⟨b, hb, hpart⟩
        simpa [hdigits b hb] using hall b hpart
      obtain ⟨hvalue, hone⟩ := h.large hdigits (hread.resolve_left hnot)
      exact ⟨hvalue, by rw [hone]; rfl⟩
    · push Not at hdigits
      obtain ⟨b, hb, hdigit⟩ := hdigits
      obtain ⟨hvalue, hone⟩ := h.malformed ⟨b, hb, Bool.eq_false_iff.mpr hdigit⟩
      exact ⟨hvalue, by rw [hone]; rfl⟩
  obtain ⟨hvalue, hone⟩ := hfault
  refine ⟨hvalue, ?_, hone⟩
  rw [h.realValue, if_pos rfl, hvalue, Binary64.ofInt_zero]

end Token

namespace Cursor

open Numeral

variable {cursor next : Cursor} {mode : Mode} {fold : Bool} {token : Token}

/-- A token that has the flag of hexadecimal numbers has class digit. -/
theorem digit_of_hex (h : cursor.scan mode fold = (some token, next))
    (hhex : token.flags.hex = true) : token.byteClass = .digit := by
  unfold scan at h
  split at h
  · cases h
  · next cut _ =>
    cases h
    have hlexeme : cut.lexeme.flags.hex = true → cut.lexeme.byteClass = .digit := by
      cases cut.lexeme with
      | numeral n => exact fun _ => rfl
      | operator op spelling => exact nofun
      | word bytes => exact nofun
      | quoted inside tail => exact nofun
    exact hlexeme hhex

/-- Whatever is pinned, a real number with a hexadecimal marker has no
value exactly if it has a point or a sign in its exponent, or if its
hexadecimal digits write a number out of range. Any other has the value
that those digits write, and the marker of its exponent is one of them;
nothing is reported about it. -/
theorem unconverted_iff {pinned : List UInt8}
    (hclasses : cursor.classes = ClassTable.standard.pinAll pinned)
    (h : cursor.scan .real fold = (some token, next)) (hreal : token.flags.real = true)
    (hhex : token.flags.hex = true) :
    let bytes := hexBytes (token.span.slice cursor.line.bytes)
    ∃ reported, next.diagnostics = cursor.diagnostics ++ reported ∧
      (token.Unconverted reported ↔ Unreadable bytes) ∧
      (¬ Unreadable bytes →
        (∃ b ∈ bytes, isExponentMarker b = true) ∧
        token.intValue = (if token.flags.negative then -(hexWritten bytes : Int)
          else hexWritten bytes) ∧
        token.realValue = some (Binary64.ofInt token.intValue) ∧ reported = []) := by
  intro bytes
  obtain ⟨sign, behind, reported, hbegins, hdiagnostics, hscanned, hslice, hne⟩ :=
    run_of_scan hclasses h (digit_of_hex h hhex)
  rw [hscanned.flags] at hreal hhex
  have hbytes : bytes = unmarked _ :=
    congrArg unmarked ((congrArg unsigned hslice).trans
      (unsigned_append hbegins ⟨_, run_append ..⟩ hne))
  have hvalue := isHexadecimal_of_run hscanned hhex
  rw [hbytes]
  refine ⟨reported, hdiagnostics, ⟨?_, hvalue.unconverted⟩, ?_⟩
  · intro hunconverted
    by_contra hread
    -- A number that can be read is not reported.
    obtain ⟨-, -, hnone⟩ := hvalue.converted (fun b hb => part_of_unmarked hb) hread
    have hone := hunconverted.reported
    rw [hnone] at hone
    cases hone
  · intro hread
    exact ⟨exponentMarker_mem_of_readable hreal hread,
      hvalue.converted (fun b hb => part_of_unmarked hb) hread⟩

/-- The number `1.5h`, which has a point. -/
theorem unconverted_of_point : ∃ cursor token next reported,
    (Settings.mk true [] .real).cursor? [0x31, 0x2e, 0x35, 0x68] = some cursor ∧
    cursor.scan .real true = (some token, next) ∧ token.flags.real = true ∧
    token.flags.hex = true ∧ next.diagnostics = cursor.diagnostics ++ reported ∧
    token.Unconverted reported := by
  obtain ⟨cursor, token, next, hcursor, hclasses, hscan, hreal, hhex, hbytes⟩ :
      ∃ cursor token next,
        (Settings.mk true [] .real).cursor? [0x31, 0x2e, 0x35, 0x68] = some cursor ∧
        cursor.classes = ClassTable.standard.pinAll [] ∧
        cursor.scan .real true = (some token, next) ∧ token.flags.real = true ∧
        token.flags.hex = true ∧
        hexBytes (token.span.slice cursor.line.bytes) = [0x31, 0x2e, 0x35] :=
    ⟨_, _, _, rfl, rfl, rfl, rfl, rfl, by decide +kernel⟩
  obtain ⟨reported, hdiagnostics, hiff, -⟩ := unconverted_iff hclasses hscan hreal hhex
  refine ⟨cursor, token, next, reported, hcursor, hscan, hreal, hhex, hdiagnostics, hiff.mpr ?_⟩
  rw [hbytes]
  exact Or.inl ⟨0x2e, by decide, Or.inl rfl⟩

/-- The number `1e5x` is a real one with a hexadecimal marker, and has
the value 485 of its digits `1e5`. Nothing is reported about it. -/
theorem unconverted_ne : ∃ cursor token next,
    (Settings.mk true [] .real).cursor? [0x31, 0x65, 0x35, 0x78] = some cursor ∧
    cursor.scan .real true = (some token, next) ∧ token.flags.real = true ∧
    token.flags.hex = true ∧ token.intValue = 485 ∧
    token.realValue = some (Binary64.ofInt 485) ∧ next.diagnostics = [] ∧
    ∀ reported, ¬ token.Unconverted reported := by
  refine ⟨_, _, _, rfl, rfl, rfl, rfl, by decide +kernel, by decide +kernel, by decide +kernel, ?_⟩
  intro reported hunconverted
  exact absurd hunconverted.intValue (by decide +kernel)

end Cursor

end LineLexer
