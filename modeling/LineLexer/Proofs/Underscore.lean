import LineLexer.Proofs.RealLiteral
import LineLexer.Proofs.Spellings

/-!
# `LineLexer.Proofs.Underscore`: the underscore is a minus sign

In real mode an underscore may stand for a minus sign, in front of a
number and in its exponent. The two bytes have different classes, and
the scanner gets to the number on different ways. In the end it is the
same number.

* `cut?_of_isMinus`, `scanLine_leading_underscore`: the same number
  behind either sign.
* `Numeral.readReal_congr`: a text has the same value with either
  spelling.
* `scanLine_exponent`: what the token of a number with a signed
  exponent says.
* `scanLine_underscore`: the two spellings side by side, in front and
  in the exponent.
-/

set_option autoImplicit false

namespace LineLexer

open Ascii Grammar Numeral

/-! ### In front of a number -/

/-- The number that a run comes to behind a minus sign, with the bytes
that it takes and those that are left. -/
def minusRun (bytes : List UInt8) : Numeral × List UInt8 × List UInt8 :=
  (signed true).run (Mode.real.classes .standard) true bytes

/-- The cut of the number behind a byte that spells its minus sign. -/
def minusCut (sign : UInt8) (bytes : List UInt8) : Lexeme.Cut where
  skipped := []
  first := sign
  more := (minusRun bytes).2.1
  after := (minusRun bytes).2.2
  lexeme := .numeral (minusRun bytes).1

/-- Where a number begins with a byte that spells its minus sign, the next
cut is that of the number behind the sign. -/
theorem cut?_of_isMinus {sign : UInt8} {bytes : List UInt8} (hminus : isMinus [sign] = true)
    (hbegins : Begins .real [sign] bytes) :
    Lexeme.cut? (Mode.real.classes .standard) .real (sign :: bytes)
      = some (minusCut sign bytes) := by
  obtain ⟨first, rest, heq, hfirst⟩ := hbegins.exists_cons
  obtain ⟨hlexeme, hmore⟩ := Lexeme.read_of_begins hbegins heq
  obtain ⟨rfl, rfl⟩ : sign = first ∧ bytes = rest := List.cons.inj heq
  rw [hminus] at hlexeme hmore
  replace hmore := (List.cons.inj hmore).2
  -- What is not taken of the bytes is left.
  have hafter := Lexeme.read_append (Mode.real.classes .standard) .real sign bytes
  rw [hmore] at hafter
  have hrun := run_append (Mode.real.classes .standard) (Mode.real == .real) (signed true) bytes
  have hleft := List.append_cancel_left (hafter.trans hrun.symm)
  have hskipped : ∀ b ∈ ([] : List UInt8), Mode.real.classes .standard b = .delimiter := nofun
  have hmode : Mode.real ≠ .rest := by decide
  have hcut := Lexeme.cut?_of_read hmode hskipped hfirst bytes
  rw [hlexeme, hmore, hleft] at hcut
  exact hcut

/-- A line that begins with a number behind a minus sign has the token of
that number first, and then the tokens of what the number leaves. The
diagnostics are in the same order. -/
theorem scanLine_of_isMinus {sign : UInt8} {bytes : List UInt8} (hminus : isMinus [sign] = true)
    (hbegins : Begins .real [sign] (bytes.takeWhile (· != 0))) (fold : Bool) :
    let line := bytes.takeWhile (· != 0)
    let first := (minusCut sign line).scanned (Mode.real.classes .standard) .real fold 0
    let more := scannedFrom (Mode.real.classes .standard) .real fold
      ((minusRun line).2.1.length + 1) (minusRun line).2.2
    scanLine (sign :: bytes) ⟨fold, [], .real⟩
      = (first.token :: more.map Scanned.token,
          first.diagnostics ++ more.flatMap Scanned.diagnostics) := by
  have hzero : (sign != 0) = true := by
    have hall : ∀ b : UInt8, isMinus [b] = true → (b != 0) = true :=
      forall_byte (by decide +kernel)
    exact hall sign hminus
  have hcut := cut?_of_isMinus hminus hbegins
  rw [scanLine_eq, Settings.classes_of_pinned_nil, List.takeWhile_cons_of_pos (p := (· != 0)) hzero,
    scannedFrom_of_some hcut]
  have hstart : 0 + (minusCut sign (bytes.takeWhile (· != 0))).skipped.length
      + (minusCut sign (bytes.takeWhile (· != 0))).source.length
        = (minusRun (bytes.takeWhile (· != 0))).2.1.length + 1 := by
    simp [minusCut, Lexeme.Cut.source]
  dsimp only
  rw [hstart]
  rfl

/-- The two spellings of the minus sign in front of a number make
tokens that differ in their raw text alone. -/
theorem scanLine_leading_underscore (fold : Bool) {d : UInt8}
    (hd : isDigit d = true ∨ d = '.'.toUInt8) (rest : List UInt8) :
    ∃ first more raw,
      (scanLine ('-'.toUInt8 :: d :: rest) ⟨fold, [], .real⟩).1 = first :: more ∧
      first.rawText = "-" ++ raw ∧
      (scanLine ('_'.toUInt8 :: d :: rest) ⟨fold, [], .real⟩).1
        = { first with rawText := "_" ++ raw } :: more ∧
      (scanLine ('-'.toUInt8 :: d :: rest) ⟨fold, [], .real⟩).2
        = (scanLine ('_'.toUInt8 :: d :: rest) ⟨fold, [], .real⟩).2 := by
  have hclass : Mode.real.classes .standard d = .digit :=
    classes_real_eq_digit_iff.mpr (hd.imp_right Or.inl)
  have hplain : d ≠ underscore := by
    rintro rfl
    rcases hd with hd | hd <;> cases hd
  have hzero : (d != 0) = true := by
    rw [bne_iff_ne]
    rintro rfl
    rcases hd with hd | hd <;> cases hd
  have hline : (d :: rest).takeWhile (· != 0) = d :: rest.takeWhile (· != 0) :=
    List.takeWhile_cons_of_pos hzero
  have hminus : Begins .real ['-'.toUInt8] ((d :: rest).takeWhile (· != 0)) := by
    rw [hline]
    exact .signed rfl hclass hplain
  have hunderscore : Begins .real ['_'.toUInt8] ((d :: rest).takeWhile (· != 0)) := .underscored rfl
  -- Both lines have the tokens of the same run, and differ in the first byte covered.
  rw [scanLine_of_isMinus rfl hminus, scanLine_of_isMinus rfl hunderscore]
  generalize (d :: rest).takeWhile (· != 0) = line
  refine ⟨_, _, Utf8.decode (minusRun line).2.1, rfl, ?_, ?_, rfl⟩
  · have hascii : '-'.toUInt8 < 0x80 := by decide
    exact Utf8.decode_ascii hascii _
  · refine congrArg (· :: _) ?_
    have hascii : '_'.toUInt8 < 0x80 := by decide
    have hraw : Utf8.decode ('_'.toUInt8 :: (minusRun line).2.1)
        = "_" ++ Utf8.decode (minusRun line).2.1 := Utf8.decode_ascii hascii _
    rw [← hraw]
    rfl

/-! ### In an exponent -/

/-- Texts that differ in the spelling of minus signs have the same
value as a real number, or none. -/
theorem Numeral.readReal_congr {bytes other : List UInt8} (hbytes : ∀ b ∈ bytes, b < 0x80)
    (hother : ∀ b ∈ other, b < 0x80) (h : bytes.map spelled = other.map spelled)
    (f : Binary64 → Binary64) :
    recovered .zero ((readReal (Utf8.decode bytes)).map f)
      = recovered .zero ((readReal (Utf8.decode other)).map f) := by
  have hspelled : ∀ bytes : List UInt8, (∀ b ∈ bytes, b < 0x80) →
      (Utf8.decode bytes).toList.map (fun c => if c = '_' then '-' else c) = bytes.map spelled := by
    intro bytes hascii
    rw [Utf8.decode, String.toList_ofList, Utf8.decodeChars_of_ascii hascii, List.map_map]
    rfl
  unfold readReal
  rw [hspelled bytes hbytes, hspelled other hother, h]
  dsimp only
  split
  · rfl
  · rfl

/-- The bytes of a real number are ASCII. -/
theorem Grammar.ascii_of_mem_realNumber {u : List UInt8} (hu : u ∈ realNumber) :
    ∀ b ∈ u, b < 0x80 := by
  have hafter : ∀ b ∈ ([] : List UInt8).head?, ByteClass.ofByte b = .delimiter := nofun
  obtain ⟨htaken, -⟩ := run_of_mem_realNumber false hu hafter
  rw [List.append_nil] at htaken
  rw [← htaken]
  exact ascii_of_run _ _ _ _

section Exponent
variable {sign m k : List UInt8} {e s : UInt8}

/-- A number may end in an exponent with a sign. -/
theorem Grammar.mem_realNumber_of_exponent
    (hm : m ∈ digits * fraction + decimalPoint * digits) (he : isExponentMarker e = true)
    (hs : isSignByte s = true) (hk : k ∈ digits) : m ++ e :: s :: k ∈ realNumber := by
  have hexponent : e :: s :: k ∈ exponentWith isExponentMarker :=
    mem_exponentWith.mpr ⟨e, [s], k, he, mem_optional_byte.mpr (Or.inr ⟨s, hs, rfl⟩), hk, rfl⟩
  exact Language.append_mem_mul hm (mem_optional.mpr (Or.inr hexponent))

/-- What the token of a number with a signed exponent says. Its integer
value is that of the digits in front of the point and the exponent,
and the sign of the exponent shows in its text alone. -/
structure Token.HasExponent (token : Token) (sign m : List UInt8) (e s : UInt8)
    (k : List UInt8) : Prop where
  span : token.span = ⟨0, (sign ++ (m ++ e :: s :: k)).length⟩
  byteClass : token.byteClass = .digit
  flags : token.flags = { real := true, hex := false, negative := isMinus sign, quoted := false }
  intValue : token.intValue =
    let size : Int := written (m.takeWhile isDigit)
    let value := if isMinus sign then -size else size
    if isInteger64 value then value else 0
  realValue : token.realValue = some (recovered .zero
    ((readReal (Utf8.decode (upper (m ++ e :: s :: k)))).map (Binary64.signed (isMinus sign))))

/-- The digits at the start of a number stand in front of its
exponent. -/
theorem takeWhile_isDigit_append (he : isExponentMarker e = true) (m rest : List UInt8) :
    (m ++ e :: rest).takeWhile isDigit = m.takeWhile isDigit := by
  have hmarker : isDigit e = false := by
    cases hdigit : isDigit e with
    | false => rfl
    | true =>
      rw [isExponentMarker_eq_false (Or.inl hdigit)] at he
      cases he
  rw [List.takeWhile_append, List.takeWhile_cons_of_neg (by simp [hmarker]), List.append_nil]
  split
  · next hall => exact ((List.takeWhile_prefix isDigit).eq_of_length hall).symm
  · rfl

/-- A real number with a signed exponent is one token, which covers the
line and says what `Token.HasExponent` lists. -/
theorem scanLine_exponent (fold : Bool) (hsign : sign ∈ optional Grammar.sign)
    (hm : m ∈ digits * fraction + decimalPoint * digits) (he : isExponentMarker e = true)
    (hs : isSignByte s = true) (hk : k ∈ digits) :
    ∃ token reported,
      scanLine (sign ++ (m ++ e :: s :: k)) ⟨fold, [], .real⟩ = ([token], reported) ∧
        token.HasExponent sign m e s k := by
  have hnumber := mem_realNumber_of_exponent hm he hs hk
  have hmarker : e ∈ m ++ e :: s :: k := List.mem_append_right m List.mem_cons_self
  have hdigits := takeWhile_isDigit_append he m (s :: k)
  generalize hu : m ++ e :: s :: k = u at hnumber hmarker hdigits ⊢
  -- The number ends with the line, and its run takes all bytes.
  have hafter : ∀ b ∈ ([] : List UInt8).head?, ByteClass.ofByte b = .delimiter := nofun
  have hbegins := begins_of_mem_realNumber hsign hnumber []
  obtain ⟨htaken, hhex⟩ := run_of_mem_realNumber (isMinus sign) hnumber hafter
  rw [List.append_nil] at hbegins htaken hhex
  obtain ⟨token, reported, hscan, hspan, hscanned⟩ :=
    scanLine_of_begins (by decide) hbegins fold htaken
  have hmode : Mode.real ≠ .word := by decide
  obtain ⟨whole, fraction, exponent, hparts⟩ := parts_of_run hmode (isMinus sign) u hhex
  -- Without a marker of hexadecimal numbers the text is all of them.
  obtain ⟨-, hnegative, htext⟩ :=
    kept_of_run (Mode.real.classes .standard) true (signed (isMinus sign)) u
  replace htext := htext hhex
  rw [htaken, text_signed, List.nil_append] at htext
  rw [show (Mode.real == Mode.real) = true from rfl] at hscanned hparts
  generalize (signed (isMinus sign)).run (Mode.real.classes .standard) true u = run at *
  have hminus : run.1.negative = isMinus sign := hnegative
  have hwhole : run.1.whole = written (m.takeWhile isDigit) := by
    rw [hparts.value, ← hparts.takeWhile_text false, ← hdigits, ← htext]
    rfl
  refine ⟨token, reported, hscan, ?_, hscanned.byteClass, ?_, ?_, ?_⟩
  · rw [hspan, hu]
  · rw [hscanned.flags, hparts.isReal_iff.mpr ⟨e, htext ▸ hmarker, Or.inr he⟩, hhex, hminus]
  · rw [hscanned.intValue, value?_of_parts hparts, apply_ite (recovered 0), signedWhole, hminus,
      hwhole]
    rfl
  · rw [hscanned.realValue, if_pos rfl, realValue?_of_parts hparts, hscanned.text, htext, hminus,
      hu]
    rfl

/-- The two spellings of the minus sign in an exponent make tokens with
the same span, class, flags and values. -/
theorem scanLine_exponent_underscore (fold : Bool) (hsign : sign ∈ optional Grammar.sign)
    (hm : m ∈ digits * fraction + decimalPoint * digits) (he : isExponentMarker e = true)
    (hk : k ∈ digits) :
    ∃ token other reported reported',
      scanLine (sign ++ (m ++ e :: '-'.toUInt8 :: k)) ⟨fold, [], .real⟩ = ([token], reported) ∧
      scanLine (sign ++ (m ++ e :: '_'.toUInt8 :: k)) ⟨fold, [], .real⟩ = ([other], reported') ∧
      token.span = other.span ∧ token.byteClass = other.byteClass ∧ token.flags = other.flags ∧
      token.intValue = other.intValue ∧ token.realValue = other.realValue := by
  have hminus : isSignByte '-'.toUInt8 = true := rfl
  have hunderscore : isSignByte '_'.toUInt8 = true := rfl
  obtain ⟨token, reported, hscan, htoken⟩ := scanLine_exponent fold hsign hm he hminus hk
  obtain ⟨other, reported', hscan', hother⟩ := scanLine_exponent fold hsign hm he hunderscore hk
  refine ⟨token, other, reported, reported', hscan, hscan', ?_, ?_, ?_, ?_, ?_⟩
  · rw [htoken.span, hother.span]
    simp only [List.length_append, List.length_cons]
  · rw [htoken.byteClass, hother.byteClass]
  · rw [htoken.flags, hother.flags]
  · rw [htoken.intValue, hother.intValue]
  · have hascii : ∀ s, isSignByte s = true → ∀ b ∈ upper (m ++ e :: s :: k), b < 0x80 := by
      intro s hs
      exact folded_ascii true (ascii_of_mem_realNumber (mem_realNumber_of_exponent hm he hs hk))
    have hsame : (upper (m ++ e :: '-'.toUInt8 :: k)).map spelled
        = (upper (m ++ e :: '_'.toUInt8 :: k)).map spelled := by
      have hspelled : spelled (toUpper '-'.toUInt8) = spelled (toUpper '_'.toUInt8) := by decide
      simp only [upper, List.map_append, List.map_cons, hspelled]
    rw [htoken.realValue, hother.realValue,
      readReal_congr (hascii _ hminus) (hascii _ hunderscore) hsame]

end Exponent

/-! ### Both -/

/-- With nothing pinned, where real numbers are read, the underscore is
another spelling of the minus sign. In front of a digit or the point
it changes the raw text of the first token and nothing else, and in an
exponent it changes no value. -/
theorem scanLine_underscore (fold : Bool) :
    (∀ d rest, isDigit d = true ∨ d = '.'.toUInt8 → ∃ first more raw,
      (scanLine ('-'.toUInt8 :: d :: rest) ⟨fold, [], .real⟩).1 = first :: more ∧
      first.rawText = "-" ++ raw ∧
      (scanLine ('_'.toUInt8 :: d :: rest) ⟨fold, [], .real⟩).1
        = { first with rawText := "_" ++ raw } :: more ∧
      (scanLine ('-'.toUInt8 :: d :: rest) ⟨fold, [], .real⟩).2
        = (scanLine ('_'.toUInt8 :: d :: rest) ⟨fold, [], .real⟩).2) ∧
    ∀ sign m e k, sign ∈ optional Grammar.sign → m ∈ digits * fraction + decimalPoint * digits →
      isExponentMarker e = true → k ∈ digits → ∃ token other reported reported',
        scanLine (sign ++ (m ++ e :: '-'.toUInt8 :: k)) ⟨fold, [], .real⟩ = ([token], reported) ∧
        scanLine (sign ++ (m ++ e :: '_'.toUInt8 :: k)) ⟨fold, [], .real⟩ = ([other], reported') ∧
        token.span = other.span ∧ token.byteClass = other.byteClass ∧ token.flags = other.flags ∧
        token.intValue = other.intValue ∧ token.realValue = other.realValue := by
  refine ⟨?_, ?_⟩
  · intro d rest hd
    exact scanLine_leading_underscore fold hd rest
  · intro sign m e k hsign hm he hk
    exact scanLine_exponent_underscore fold hsign hm he hk

/-- The line `-7` with either sign in front, and `+2.5e-3` with either
sign in the exponent. -/
theorem scanLine_underscore_both :
    (∃ first more raw,
      (scanLine ['-'.toUInt8, 0x37] ⟨true, [], .real⟩).1 = first :: more ∧
      first.rawText = "-" ++ raw ∧
      (scanLine ['_'.toUInt8, 0x37] ⟨true, [], .real⟩).1
        = { first with rawText := "_" ++ raw } :: more ∧
      (scanLine ['-'.toUInt8, 0x37] ⟨true, [], .real⟩).2
        = (scanLine ['_'.toUInt8, 0x37] ⟨true, [], .real⟩).2) ∧
    ∃ token other reported reported',
      scanLine ([0x2b] ++ ([0x32, 0x2e, 0x35] ++ 0x65 :: '-'.toUInt8 :: [0x33]))
        ⟨true, [], .real⟩ = ([token], reported) ∧
      scanLine ([0x2b] ++ ([0x32, 0x2e, 0x35] ++ 0x65 :: '_'.toUInt8 :: [0x33]))
        ⟨true, [], .real⟩ = ([other], reported') ∧
      token.span = other.span ∧ token.byteClass = other.byteClass ∧ token.flags = other.flags ∧
      token.intValue = other.intValue ∧ token.realValue = other.realValue := by
  have hsign : [0x2b] ∈ optional Grammar.sign := mem_optional_byte.mpr (Or.inr ⟨0x2b, rfl, rfl⟩)
  have hwhole : [0x32] ∈ digits := mem_digits.mpr (by decide +kernel)
  have hfraction : [0x2e, 0x35] ∈ fraction :=
    mem_fraction.mpr (Or.inr ⟨[0x35], by decide +kernel, rfl⟩)
  have hm : [0x32, 0x2e, 0x35] ∈ digits * fraction + decimalPoint * digits :=
    (Language.mem_add _ _ _).mpr (Or.inl (Language.append_mem_mul hwhole hfraction))
  have hk : [0x33] ∈ digits := mem_digits.mpr (by decide +kernel)
  obtain ⟨hleading, hexponent⟩ := scanLine_underscore true
  exact ⟨hleading 0x37 [] (Or.inl rfl), hexponent _ _ 0x65 _ hsign hm rfl hk⟩

end LineLexer
