import LineLexer.Proofs.DecimalRun
import LineLexer.Proofs.HexReading
import LineLexer.Proofs.RealReading

/-!
# `LineLexer.Proofs.DecimalValue`: the integer value of a decimal number

A number without hexadecimal marker has the integer value that the
digits at the start of its text write, with its sign, if that is a
64-bit integer. Otherwise its value is zero and one diagnostic says
so. No digit behind a point or in an exponent has a part in this.

* `Numeral.Parts`: a number without marker whose bytes have all been
  read, and the parts of its text.
* `readReal_of_scanned`, `reported_of_parts`: whether its text is a
  real number, and what is reported about it.
* `Token.wholePart`: the integer that the text of a token begins with.
* `Cursor.parts_of_scan`: every number without marker that a scan
  returns has such parts.
* `Cursor.intValue_of_decimal`: its integer value.
-/

set_option autoImplicit false

namespace LineLexer

open Ascii Grammar

namespace Numeral

/-! ### The parts of the text -/

/-- A number without hexadecimal marker that has been read to its end,
divided into the digits in front, the point with those behind it, and the
exponent. -/
structure Parts (n : Numeral) (whole fraction exponent : List UInt8) : Prop where
  hex : n.hex = false
  text : n.text = whole ++ (fraction ++ exponent)
  value : n.whole = written whole
  isReal : n.isReal = true ↔ fraction ≠ [] ∨ exponent ≠ []
  whole_digits : ∀ b ∈ whole, isDigit b = true
  fraction_mem : fraction ∈ Grammar.fraction
  exponent_mem : exponent ∈ optional (exponentWith isExponentMarker)

/-- A run that ends without a hexadecimal marker makes a number that can
be divided into parts. -/
theorem parts_of_run {mode : Mode} (hmode : mode ≠ .word) (negative : Bool) (bytes : List UInt8)
    (hhex : ((signed negative).run (mode.classes .standard) (mode == .real) bytes).1.hex = false) :
    ∃ whole fraction exponent,
      ((signed negative).run (mode.classes .standard) (mode == .real) bytes).1.Parts
        whole fraction exponent := by
  obtain ⟨whole, fraction, exponent, h⟩ :=
    decimal_run hmode (decimal_signed mode negative bytes) hhex
  obtain ⟨hmem, hexponent⟩ := exponent_of_stopped hmode h (run_taken_left ..)
  have hfraction := h.fraction
  refine ⟨whole, fraction, exponent, hhex, h.text, h.value, ?_, h.whole, ?_, hmem⟩
  · rw [Numeral.isReal, Bool.or_eq_true, hexponent]
    refine or_congr_left ?_
    generalize Numeral.point _ = isPoint at hfraction
    cases hfraction with
    | none => simp
    | point hds => simp
  · generalize Numeral.point _ = isPoint at hfraction
    cases hfraction with
    | none => exact mem_optional.mpr (Or.inl rfl)
    | point hds => exact mem_fraction.mpr (Or.inr ⟨_, hds, rfl⟩)

namespace Parts
variable {n : Numeral} {whole fraction exponent : List UInt8}

/-- The text of a number without hexadecimal marker is made of digits, a
point, the marker of an exponent and its sign. -/
theorem mem_text (h : n.Parts whole fraction exponent) : ∀ b ∈ n.text,
    isDigit b = true ∨ b = '.'.toUInt8 ∨ isExponentMarker b = true ∨ isSignByte b = true := by
  intro b hb
  rw [h.text] at hb
  -- The byte is in front of the point, behind it, or in the exponent.
  rcases List.mem_append.mp hb with hb | hb
  · exact Or.inl (h.whole_digits b hb)
  rcases List.mem_append.mp hb with hb | hb
  · rcases mem_fraction.mp h.fraction_mem with rfl | ⟨ds, hds, rfl⟩
    · cases hb
    · rcases List.mem_cons.mp hb with rfl | hb
      · exact Or.inr (Or.inl rfl)
      · exact Or.inl (hds b hb)
  · rcases mem_optional.mp h.exponent_mem with rfl | hexponent
    · cases hb
    · obtain ⟨e, s, ds, he, hs, hds, rfl⟩ := mem_exponentWith.mp hexponent
      rcases List.mem_cons.mp hb with rfl | hb
      · exact Or.inr (Or.inr (Or.inl he))
      rcases List.mem_append.mp hb with hb | hb
      · rcases mem_optional_byte.mp hs with rfl | ⟨c, hc, rfl⟩
        · cases hb
        · rw [List.mem_singleton.mp hb]
          exact Or.inr (Or.inr (Or.inr hc))
      · exact Or.inl ((mem_digits.mp hds).2 b hb)

/-- The text of a number without hexadecimal marker is made of ASCII
bytes, so each of them is read as a character of its own. -/
theorem ascii (h : n.Parts whole fraction exponent) : ∀ b ∈ n.text, b < 0x80 := by
  have hall : ∀ b : UInt8, isDigit b = true ∨ b = '.'.toUInt8 ∨ isExponentMarker b = true ∨
      isSignByte b = true → b < 0x80 := forall_byte (by decide +kernel)
  intro b hb
  exact hall b (h.mem_text b hb)

end Parts

/-- Of the bytes that make a decimal number only the marker of an exponent
has a capital other than itself. -/
theorem toUpper_of_part {b : UInt8} :
    (isDigit b = true ∨ b = '.'.toUInt8 ∨ isSignByte b = true → toUpper b = b) ∧
      (isExponentMarker b = true → toUpper b = 'E'.toUInt8) := by
  revert b
  apply forall_byte
  decide +kernel

/-- Digits are their own capitals. -/
theorem upper_of_isDigit {ds : List UInt8} (h : ∀ b ∈ ds, isDigit b = true) : upper ds = ds := by
  induction ds with
  | nil => rfl
  | cons d ds ih =>
    obtain ⟨hd, hds⟩ := List.forall_mem_cons.mp h
    rw [upper, List.map_cons, toUpper_of_part.1 (Or.inl hd)]
    exact congrArg (d :: ·) (ih hds)

/-- A point with its digits is not changed by upper-casing. -/
theorem upper_fraction {fraction : List UInt8} (h : fraction ∈ Grammar.fraction) :
    upper fraction = fraction := by
  rcases mem_fraction.mp h with rfl | ⟨ds, hds, rfl⟩
  · rfl
  · exact congrArg₂ List.cons (toUpper_of_part.1 (Or.inr (Or.inl rfl))) (upper_of_isDigit hds)

/-- An exponent has a capital marker after upper-casing, and is otherwise
the same. -/
theorem upper_exponent {exponent : List UInt8}
    (h : exponent ∈ optional (exponentWith isExponentMarker)) :
    upper exponent ∈ optional capitalExponent := by
  rcases mem_optional.mp h with rfl | h
  · exact mem_optional.mpr (Or.inl rfl)
  obtain ⟨e, s, ds, he, hs, hds, rfl⟩ := mem_exponentWith.mp h
  have hsign : upper s = s := by
    rcases mem_optional_byte.mp hs with rfl | ⟨b, hb, rfl⟩
    · rfl
    · exact congrArg ([·]) (toUpper_of_part.1 (Or.inr (Or.inr hb)))
  refine mem_optional.mpr (Or.inr (mem_exponentWith.mpr ⟨'E'.toUInt8, s, ds, rfl, hs, hds, ?_⟩))
  rw [upper, List.map_cons, List.map_append, toUpper_of_part.2 he]
  exact congrArg (_ :: ·) (congrArg₂ (· ++ ·) hsign (upper_of_isDigit (mem_digits.mp hds).2))

/-- The text of a number in capitals has the same parts but for the
exponent, which is in capitals. -/
theorem Parts.upper_text {n : Numeral} {whole fraction exponent : List UInt8}
    (h : n.Parts whole fraction exponent) :
    upper n.text = whole ++ (fraction ++ upper exponent) := by
  rw [h.text, upper, List.map_append, List.map_append]
  exact congrArg₂ (· ++ ·) (upper_of_isDigit h.whole_digits)
    (congrArg (· ++ _) (upper_fraction h.fraction_mem))

/-- The decimal digits at the start of a number's text are those of its
first part, in capitals or not. -/
theorem Parts.takeWhile_text {n : Numeral} {whole fraction exponent : List UInt8}
    (h : n.Parts whole fraction exponent) (fold : Bool) :
    (folded fold n.text).takeWhile isDigit = whole := by
  have hstop : ∀ b ∈ (fraction ++ exponent).head?, isDigit b = false := by
    have hmarker : ∀ b : UInt8, isExponentMarker b = true → isDigit b = false :=
      forall_byte (by decide +kernel)
    intro b hb
    rcases mem_fraction.mp h.fraction_mem with rfl | ⟨ds, -, rfl⟩
    · rcases mem_optional.mp h.exponent_mem with rfl | hexponent
      · cases hb
      · obtain ⟨e, s, ds, he, -, -, rfl⟩ := mem_exponentWith.mp hexponent
        cases hb
        exact hmarker _ he
    · cases hb
      rfl
  have hplain : n.text.takeWhile isDigit = whole := by
    rw [h.text, Lexeme.takeWhile_append_stop h.whole_digits hstop]
  cases fold with
  | false => exact hplain
  | true =>
    -- Capitals are digits where the bytes are, and digits are their own capitals.
    have hdigit : ∀ b : UInt8, isDigit (toUpper b) = isDigit b := forall_byte (by decide +kernel)
    rw [folded, if_pos rfl, upper, List.takeWhile_map,
      show isDigit ∘ toUpper = isDigit from funext hdigit, hplain]
    exact upper_of_isDigit h.whole_digits

/-! ### The value and the diagnostics -/

/-- The whole part of a number with its sign, of any size. -/
def signedWhole (n : Numeral) : Int := if n.negative then -n.whole else n.whole

section Scanned
variable {n : Numeral} {mode : Mode} {fold : Bool} {token : Token} {reported : List Diagnostic}
  {whole fraction exponent : List UInt8}

/-- The integer value of a number without marker is its whole part, if
that is a 64-bit integer. -/
theorem value?_of_not_hex (h : n.hex = false) (text : String) :
    n.value? text = if isInteger64 n.signedWhole then .ok n.signedWhole
      else .error ⟨.integerOutOfRange, text⟩ := by
  rw [value?, h, if_neg Bool.false_ne_true]
  rfl

/-- The integer value of a number that is divided into parts is its whole
part with its sign, if that is a 64-bit integer. -/
theorem value?_of_parts (h : n.Parts whole fraction exponent) (text : String) :
    n.value? text = if isInteger64 n.signedWhole then .ok n.signedWhole
      else .error ⟨.integerOutOfRange, text⟩ :=
  value?_of_not_hex h.hex text

/-- The real value of a number that is divided into parts is that of its
text, with the sign of the number. -/
theorem realValue?_of_parts (h : n.Parts whole fraction exponent) (text : String)
    (intValue : Int) :
    n.realValue? text intValue = (readReal text).map (Binary64.signed n.negative) := by
  rw [realValue?, h.hex, if_neg Bool.false_ne_true]

/-- The text of a number without marker has a value as a real number
exactly if a digit stands before its exponent. -/
theorem readReal_of_scanned (hscanned : n.ScannedAs .real fold token reported)
    (h : n.Parts whole fraction exponent) :
    if (whole ++ fraction).any isDigit then ∃ value, readReal token.text = .ok value
    else readReal token.text = .error ⟨.malformed, token.text⟩ := by
  refine readReal_of_parts h.whole_digits h.fraction_mem (upper_exponent h.exponent_mem) ?_
  rw [hscanned.text, ← h.upper_text]
  show (Utf8.decode (upper n.text)).toList = _
  rw [Utf8.decode, String.toList_ofList]
  exact Utf8.decodeChars_of_ascii (folded_ascii true h.ascii)

/-- What is reported about a number without marker: that its whole part
is no 64-bit integer, or, where real numbers are read, that no digit
stands before its exponent. -/
theorem reported_of_parts (hscanned : n.ScannedAs mode fold token reported)
    (h : n.Parts whole fraction exponent) :
    reported = ((if isInteger64 n.signedWhole then []
        else [NumeralFault.mk .integerOutOfRange token.text]) ++
      if mode = .real ∧ (whole ++ fraction).any isDigit = false then
        [NumeralFault.mk .malformed token.text] else []).map (Diagnostic.ofFault token.span) := by
  have hint : faultOf (n.value? token.text) = if isInteger64 n.signedWhole then []
      else [NumeralFault.mk .integerOutOfRange token.text] := by
    rw [value?_of_parts h]
    split
    · rfl
    · rfl
  -- A real value is missing only in real mode, and only without a digit in front.
  have hreal : (if mode = .real then
        faultOf (n.realValue? token.text token.intValue) else [])
      = if mode = .real ∧ (whole ++ fraction).any isDigit = false then
          [NumeralFault.mk .malformed token.text] else [] := by
    by_cases hmode : mode = .real
    · subst hmode
      have hread := readReal_of_scanned hscanned h
      rw [if_pos rfl, realValue?_of_parts h]
      cases hany : (whole ++ fraction).any isDigit with
      | true =>
        rw [hany, if_pos rfl] at hread
        obtain ⟨value, hvalue⟩ := hread
        rw [hvalue, if_neg (by simp)]
        rfl
      | false =>
        rw [hany, if_neg Bool.false_ne_true] at hread
        rw [hread, if_pos ⟨rfl, rfl⟩]
        rfl
    · rw [if_neg hmode, if_neg fun hboth => hmode hboth.1]
  rw [hscanned.reported, hint, hreal]

/-- A number whose whole part is no 64-bit integer has a digit in front of
its point. So its text is a real number, and nothing is reported about
that. -/
theorem any_isDigit_of_large (h : n.Parts whole fraction exponent)
    (hlarge : isInteger64 n.signedWhole = false) : whole.any isDigit = true := by
  cases whole with
  | nil =>
    rw [signedWhole, h.value] at hlarge
    cases hnegative : n.negative <;> rw [hnegative] at hlarge <;> cases hlarge
  | cons d rest => simp [h.whole_digits d List.mem_cons_self]

end Scanned

end Numeral

/-! ### The token -/

/-- The integer that the decimal digits at the start of a token's text
write, of any size, with the sign of the token. It is zero if there
are none. -/
def Token.wholePart (token : Token) : Int :=
  let size := Numeral.written ((Utf8.encode token.text).takeWhile isDigit)
  if token.flags.negative then -size else size

namespace Numeral

/-- The digits at the start of a token's text write the whole part of the
number that the token was made from. -/
theorem wholePart_of_scanned {n : Numeral} {mode : Mode} {fold : Bool} {token : Token}
    {reported : List Diagnostic} {whole fraction exponent : List UInt8}
    (hscanned : n.ScannedAs mode fold token reported) (h : n.Parts whole fraction exponent) :
    token.wholePart = n.signedWhole := by
  rw [Token.wholePart, hscanned.text, Utf8.encode_decode (folded_ascii _ h.ascii),
    h.takeWhile_text, hscanned.flags, signedWhole, h.value]

/-- A fault of the real value is not worded like one of the integer value,
so their diagnostics can be told apart. -/
theorem ofFault_ne {span other : Span} {text shown : String} :
    Diagnostic.ofFault span ⟨.integerOutOfRange, text⟩
      ≠ Diagnostic.ofFault other ⟨.malformed, shown⟩ := by
  intro heq
  have htext : NumeralFault.message ⟨.integerOutOfRange, text⟩
      = NumeralFault.message ⟨.malformed, shown⟩ := congrArg Diagnostic.text heq
  have hhead := congrArg (fun s => s.toList.head?) htext
  simp [NumeralFault.message, Quoted.quoted] at hhead

end Numeral

namespace Cursor

open Numeral

variable {cursor next : Cursor} {mode : Mode} {fold : Bool} {token : Token}

/-- Every number without hexadecimal marker that a scan returns is made
from a number that can be divided into parts. -/
theorem parts_of_scan (hclasses : cursor.classes = .standard)
    (h : cursor.scan mode fold = (some token, next)) (hdigit : token.byteClass = .digit)
    (hhex : token.flags.hex = false) :
    ∃ n reported whole fraction exponent, next.diagnostics = cursor.diagnostics ++ reported ∧
      ScannedAs n mode fold token reported ∧ n.Parts whole fraction exponent := by
  obtain ⟨hrest, skipped, sign, bytes, hremaining, hskipped, hbegins⟩ :=
    begins_of_scan hclasses h hdigit
  -- In word mode no byte has class digit, so no number begins.
  have hmode : mode ≠ .word := by
    rintro rfl
    cases hbegins with
    | unsigned hclass _ => exact classes_word_ne (Or.inl hclass)
    | signed _ hclass _ => exact classes_word_ne (Or.inl hclass)
    | underscored hreal => cases hreal
  obtain ⟨token', next', reported, hscan, hdiagnostics, -, hscanned⟩ :=
    scan_of_begins hclasses hrest hremaining hskipped hbegins fold
  obtain ⟨htoken, rfl⟩ := Prod.mk.inj (h.symm.trans hscan)
  obtain rfl := Option.some.inj htoken
  rw [hscanned.flags] at hhex
  obtain ⟨whole, fraction, exponent, hparts⟩ := parts_of_run hmode _ bytes hhex
  exact ⟨_, reported, whole, fraction, exponent, hdiagnostics, hscanned, hparts⟩

/-- With nothing pinned, a number without hexadecimal marker has as its
integer value the one that the digits at the start of its text write,
with its sign, and nothing is reported about that. If this is no
64-bit integer the value is zero, and that is reported once and
nothing else. -/
theorem intValue_of_decimal (hclasses : cursor.classes = .standard)
    (h : cursor.scan mode fold = (some token, next)) (hdigit : token.byteClass = .digit)
    (hhex : token.flags.hex = false) :
    ∃ reported, next.diagnostics = cursor.diagnostics ++ reported ∧
      (-2 ^ 63 ≤ token.wholePart ∧ token.wholePart < 2 ^ 63 →
        token.intValue = token.wholePart ∧
          ∀ span text, Diagnostic.ofFault span ⟨.integerOutOfRange, text⟩ ∉ reported) ∧
      (¬ (-2 ^ 63 ≤ token.wholePart ∧ token.wholePart < 2 ^ 63) →
        token.intValue = 0 ∧
          reported = [Diagnostic.ofFault token.span ⟨.integerOutOfRange, token.text⟩]) := by
  obtain ⟨n, reported, whole, fraction, exponent, hdiagnostics, hscanned, hparts⟩ :=
    parts_of_scan hclasses h hdigit hhex
  have hvalue := value?_of_parts hparts token.text
  have hreported := reported_of_parts hscanned hparts
  rw [wholePart_of_scanned hscanned hparts, ← isInteger64_iff]
  refine ⟨reported, hdiagnostics, ?_, ?_⟩
  · intro hsmall
    rw [if_pos hsmall] at hvalue hreported
    refine ⟨?_, ?_⟩
    · rw [hscanned.intValue, hvalue]
      rfl
    · intro span text hmem
      rw [hreported, List.nil_append] at hmem
      split at hmem
      · exact ofFault_ne (List.mem_singleton.mp hmem)
      · cases hmem
  · intro hlarge
    -- The digit in front makes the text a real number, so there is no second fault.
    have hdigits := any_isDigit_of_large hparts (Bool.not_eq_true _ ▸ hlarge)
    rw [if_neg hlarge] at hvalue hreported
    refine ⟨?_, ?_⟩
    · rw [hscanned.intValue, hvalue]
      rfl
    · rw [hreported, List.any_append, hdigits, Bool.true_or, if_neg (by simp)]
      rfl

/-- The number `_9223372036854775809.5`, whose whole part is one less
than the least 64-bit integer. -/
theorem intValue_of_decimal_below_least : ∃ cursor token next reported,
    Settings.standard.cursor?
        [0x5f, 0x39, 0x32, 0x32, 0x33, 0x33, 0x37, 0x32, 0x30, 0x33, 0x36, 0x38, 0x35, 0x34, 0x37,
          0x37, 0x35, 0x38, 0x30, 0x39, 0x2e, 0x35]
      = some cursor ∧
    cursor.classes = .standard ∧ cursor.scan .real true = (some token, next) ∧
    token.byteClass = .digit ∧ token.flags.hex = false ∧
    token.wholePart = -9223372036854775809 ∧
    next.diagnostics = cursor.diagnostics ++ reported ∧ token.intValue = 0 ∧
    reported = [Diagnostic.ofFault token.span ⟨.integerOutOfRange, token.text⟩] := by
  obtain ⟨cursor, token, next, hcursor, hclasses, hscan, hdigit, hhex, hwhole⟩ :
      ∃ cursor token next, Settings.standard.cursor?
          [0x5f, 0x39, 0x32, 0x32, 0x33, 0x33, 0x37, 0x32, 0x30, 0x33, 0x36, 0x38, 0x35, 0x34, 0x37,
            0x37, 0x35, 0x38, 0x30, 0x39, 0x2e, 0x35]
        = some cursor ∧ cursor.classes = .standard ∧ cursor.scan .real true = (some token, next) ∧
        token.byteClass = .digit ∧ token.flags.hex = false ∧
        token.wholePart = -9223372036854775809 :=
    ⟨_, _, _, rfl, rfl, rfl, rfl, by decide +kernel, by decide +kernel⟩
  obtain ⟨reported, hdiagnostics, -, hlarge⟩ := intValue_of_decimal hclasses hscan hdigit hhex
  obtain ⟨hvalue, hreported⟩ := hlarge (by rw [hwhole]; decide)
  exact ⟨cursor, token, next, reported, hcursor, hclasses, hscan, hdigit, hhex, hwhole,
    hdiagnostics, hvalue, hreported⟩

end Cursor

end LineLexer
