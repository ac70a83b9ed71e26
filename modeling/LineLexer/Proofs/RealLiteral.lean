import LineLexer.Proofs.DecimalValue

/-!
# `LineLexer.Proofs.RealLiteral`: real numbers and their texts

Where real numbers are read, every number that the grammar has is read
as a whole if a delimiter or the end of the line stands behind it.
Conversely the text of every number without hexadecimal marker has the
form that the grammar gives it, with the one exception that digits may
be missing: then the number is reported and read as zero.

* `Numeral.Takes`: the bytes that a number takes one after the other.
* `takes_mantissa`, `takes_exponent`: a number takes a mantissa and an
  exponent as a whole.
* `run_of_mem_realNumber`: a run takes the whole of a real number.
* `Token.IsLiteral`, `Token.IsDecimal`: what the token of a literal
  says, and what the token of any number without marker does.
* `Cursor.scan_real_number`: a scan returns the token of a literal where
  one stands, and every number without marker is one or lacks its digits.
-/

set_option autoImplicit false

namespace LineLexer

open Ascii Grammar

namespace Numeral

/-! ### Bytes that are taken -/

/-- Where real numbers are read, the number takes the bytes one after
the other if `after` follows them, and is `last` then. -/
inductive Takes (after : List UInt8) : Numeral → List UInt8 → Numeral → Prop where
  | nil (n : Numeral) : Takes after n [] n
  | cons {n next last : Numeral} {b : UInt8} {bytes : List UInt8}
      (hnext : n.next? (Mode.real.classes .standard) true b (bytes ++ after) = some next)
      (hmore : Takes after next bytes last) : Takes after n (b :: bytes) last

section Takes
variable {n mid last : Numeral} {u v after : List UInt8}

/-- If some bytes are taken before others, and then the others, both are
taken together. -/
theorem Takes.append (h : Takes (v ++ after) n u mid) (h' : Takes after mid v last) :
    Takes after n (u ++ v) last := by
  induction h with
  | nil n => exact h'
  | cons hnext _ ih =>
    refine .cons ?_ (ih h')
    rwa [← List.append_assoc] at hnext

/-- In front of a delimiter, and at the end, the bytes that are taken
are the run. -/
theorem Takes.run (h : Takes after n u last)
    (hafter : ∀ b ∈ after.head?, ByteClass.ofByte b = .delimiter) :
    n.run (Mode.real.classes .standard) true (u ++ after) = (last, u, after) := by
  induction h with
  | nil n =>
    cases after with
    | nil => rfl
    | cons b rest =>
      have hdelimiter := (Mode.classes_eq_delimiter_iff .real .standard b).mpr (hafter b rfl)
      exact run_of_next?_eq_none (next?_delimiter hdelimiter)
  | cons hnext _ ih => rw [List.cons_append, run_of_next?_eq_some hnext, ih]

/-- Digits are always taken, and change only the text and the whole part
of a number. -/
theorem takes_digits (n : Numeral) {ds : List UInt8} (hds : ∀ b ∈ ds, isDigit b = true)
    (after : List UInt8) :
    ∃ kept whole, Takes after n ds { n with kept := kept, whole := whole } := by
  induction ds generalizing n with
  | nil => exact ⟨n.kept, n.whole, .nil n⟩
  | cons d ds ih =>
    obtain ⟨hd, hds⟩ := List.forall_mem_cons.mp hds
    have hnext : n.next? (Mode.real.classes .standard) true d (ds ++ after)
        = some { n.keep d with
            whole := if n.isReal then n.whole else n.whole * 10 + digitValue d } := by
      rw [next?, classes_of_isDigit (by decide) hd, nextDigit?, if_pos hd]
    obtain ⟨kept, whole, hmore⟩ := ih _ hds
    exact ⟨kept, whole, .cons hnext hmore⟩

/-- A point with its digits is taken by a number that has neither point
nor exponent nor marker. -/
theorem takes_fraction {n : Numeral} (hpoint : n.point = false) (hexponent : n.exponent = false)
    (hhex : n.hex = false) {f : List UInt8} (hf : f ∈ fraction) (after : List UInt8) :
    ∃ kept whole point,
      Takes after n f { n with kept := kept, whole := whole, point := point } := by
  rcases mem_fraction.mp hf with rfl | ⟨ds, hds, rfl⟩
  · exact ⟨n.kept, n.whole, n.point, .nil n⟩
  · have hnext : n.next? (Mode.real.classes .standard) true '.'.toUInt8 (ds ++ after)
        = some { n.keep '.'.toUInt8 with point := true } := by
      rw [next?, show Mode.real.classes .standard '.'.toUInt8 = .digit from by decide]
      simp [nextDigit?, hpoint, hexponent, hhex, show isDigit '.'.toUInt8 = false from rfl]
    obtain ⟨kept, whole, hmore⟩ := takes_digits { n.keep '.'.toUInt8 with point := true } hds after
    exact ⟨kept, whole, true, .cons hnext hmore⟩

/-- A mantissa is taken as a whole behind the sign of a number, and leaves
the number without exponent and marker. -/
theorem takes_mantissa (negative : Bool) {m : List UInt8} (hm : m ∈ mantissa)
    (after : List UInt8) :
    ∃ kept whole point,
      Takes after (signed negative) m
        { signed negative with kept := kept, whole := whole, point := point } := by
  obtain ⟨ds, f, hds, hf, rfl⟩ := mem_mantissa.mp hm
  obtain ⟨kept, whole, hdigits⟩ := takes_digits (signed negative) hds (f ++ after)
  obtain ⟨kept', whole', point, hfraction⟩ :=
    takes_fraction (n := { signed negative with kept := kept, whole := whole }) rfl rfl rfl hf after
  exact ⟨kept', whole', point, hdigits.append hfraction⟩

end Takes

/-! ### Exponents -/

section Exponent
variable {s ds after : List UInt8}

/-- The rest of an exponent, behind its marker, is seen as one by the look
ahead. -/
theorem exponentAhead_of_exponent (hs : s ∈ optional sign) (hds : ds ∈ digits) :
    exponentAhead (s ++ (ds ++ after)) = true := by
  obtain ⟨hne, hall⟩ := mem_digits.mp hds
  obtain ⟨d, more, rfl⟩ := List.exists_cons_of_ne_nil hne
  have hd := hall d List.mem_cons_self
  rcases mem_optional_byte.mp hs with rfl | ⟨b, hb, rfl⟩
  · simp [exponentAhead, hd]
  · rw [isSignByte] at hb
    simp [exponentAhead, hd, hb]

/-- The rest of an exponent shows no hexadecimal marker to the look ahead,
if a delimiter or nothing follows. -/
theorem suffixAhead_of_exponent (hs : s ∈ optional sign) (hds : ds ∈ digits)
    (hafter : ∀ b ∈ after.head?, ByteClass.ofByte b = .delimiter) :
    suffixAhead (s ++ (ds ++ after)) = false := by
  rcases mem_optional_byte.mp hs with rfl | ⟨b, hb, rfl⟩
  · have hhex : ∀ b ∈ ds, isHexDigit b = true := fun b hb =>
      isHexDigit_of_isDigit ((mem_digits.mp hds).2 b hb)
    rw [List.nil_append, suffixAhead, List.dropWhile_append_of_pos hhex]
    cases after with
    | nil => rfl
    | cons c rest =>
      have hsilent := silent_of_delimiter (hafter c rfl)
      simp [hsilent.hexDigit, hsilent.suffixMarker]
  · have hsigns : ∀ b : UInt8, isSignByte b = true →
        isHexDigit b = false ∧ isSuffixMarker b = false := forall_byte (by decide +kernel)
    obtain ⟨hhex, hsuffix⟩ := hsigns b hb
    rw [List.singleton_append, suffixAhead_cons, hhex, hsuffix]
    rfl

/-- The sign of an exponent is taken behind its marker, before a
digit. -/
theorem next?_of_endsInMarker {n : Numeral} {b : UInt8} {rest : List UInt8}
    (hends : n.endsInMarker = true) (hb : isSignByte b = true)
    (hdigit : rest.head?.any isDigit = true) :
    n.next? (Mode.real.classes .standard) true b rest = some (n.keep b) := by
  rw [isSignByte, Bool.or_eq_true, beq_iff_eq] at hb
  rcases hb with hsign | rfl
  · rw [next?, classes_of_isSign (by decide) hsign]
    simp [nextSign?, hsign, hends, hdigit]
  · rw [next?, classes_underscore]
    simp [nextDigit?, hends, show isDigit underscore = false from rfl,
      show (underscore == '.'.toUInt8) = false from rfl]

/-- An exponent is taken, before a delimiter or the end, by a number
that has neither an exponent nor a marker. -/
theorem takes_exponent {n : Numeral} (hexponent : n.exponent = false) (hhex : n.hex = false)
    (hmarked : n.hexPrefix = false) {e : List UInt8} (he : e ∈ exponentWith isExponentMarker)
    (hafter : ∀ b ∈ after.head?, ByteClass.ofByte b = .delimiter) :
    ∃ last, Takes after n e last ∧ last.hex = false := by
  obtain ⟨c, s, ds, hc, hs, hds, rfl⟩ := mem_exponentWith.mp he
  have hmarker : n.next? (Mode.real.classes .standard) true c (s ++ ds ++ after)
      = some { n.keep c with exponent := true } := by
    have hmarkers : ∀ c : UInt8, isExponentMarker c = true →
        Mode.real.classes .standard c = .other ∧ isPrefixMarker c = false ∧
          isSuffixMarker c = false := forall_byte (by decide +kernel)
    obtain ⟨hclass, hnotPrefix, hnotSuffix⟩ := hmarkers c hc
    rw [next?, hclass, List.append_assoc]
    simp [nextLetter?, hnotPrefix, hnotSuffix, hmarked, suffixAhead_of_exponent hs hds hafter, hc,
      hexponent, hhex, exponentAhead_of_exponent hs hds]
  obtain ⟨hne, hall⟩ := mem_digits.mp hds
  -- Behind the marker stand the digits, or a sign and the digits.
  rcases mem_optional_byte.mp hs with rfl | ⟨b, hb, rfl⟩
  · obtain ⟨kept, whole, hdigits⟩ :=
      takes_digits { n.keep c with exponent := true } hall after
    exact ⟨_, .cons hmarker hdigits, hhex⟩
  · have hsign : { n.keep c with exponent := true }.next? (Mode.real.classes .standard) true b
        (ds ++ after) = some ({ n.keep c with exponent := true }.keep b) := by
      refine next?_of_endsInMarker ?_ hb ?_
      · simp [endsInMarker, keep, hc]
      · obtain ⟨d, more, rfl⟩ := List.exists_cons_of_ne_nil hne
        exact hall d List.mem_cons_self
    obtain ⟨kept, whole, hdigits⟩ :=
      takes_digits ({ n.keep c with exponent := true }.keep b) hall after
    exact ⟨_, .cons hmarker (.cons hsign hdigits), hhex⟩

end Exponent

/-- A run takes a real number as a whole if a delimiter or nothing
follows, and meets no marker in it. -/
theorem run_of_mem_realNumber (negative : Bool) {u after : List UInt8} (hu : u ∈ realNumber)
    (hafter : ∀ b ∈ after.head?, ByteClass.ofByte b = .delimiter) :
    let run := (signed negative).run (Mode.real.classes .standard) true (u ++ after)
    run.2.1 = u ∧ run.1.hex = false := by
  obtain ⟨m, e, rfl, hm, -, he⟩ := exists_of_mem_realNumber hu
  have htakes : ∃ last, Takes after (signed negative) (m ++ e) last ∧ last.hex = false := by
    obtain ⟨kept, whole, point, hmantissa⟩ := takes_mantissa negative hm (e ++ after)
    rcases mem_optional.mp he with rfl | he
    · rw [List.append_nil]
      exact ⟨_, hmantissa, rfl⟩
    · obtain ⟨last, hexponent, hhex⟩ := takes_exponent (n :=
        { signed negative with kept := kept, whole := whole, point := point }) rfl rfl rfl he hafter
      exact ⟨last, hmantissa.append hexponent, hhex⟩
  obtain ⟨last, htakes, hhex⟩ := htakes
  dsimp only
  rw [htakes.run hafter]
  exact ⟨rfl, hhex⟩

/-! ### The form of the text -/

section Form
variable {n : Numeral} {whole fraction exponent m e u : List UInt8} {b : UInt8}

/-- No byte of a mantissa is the marker of an exponent. -/
theorem isExponentMarker_of_mantissa (hm : m ∈ mantissa) : ∀ b ∈ m, isExponentMarker b = false := by
  obtain ⟨ds, f, hds, hf, rfl⟩ := mem_mantissa.mp hm
  intro b hb
  rcases List.mem_append.mp hb with hb | hb
  · exact isExponentMarker_eq_false (Or.inl (hds b hb))
  · rcases mem_fraction.mp hf with rfl | ⟨more, hmore, rfl⟩
    · cases hb
    · rcases List.mem_cons.mp hb with rfl | hb
      · rfl
      · exact isExponentMarker_eq_false (Or.inl (hmore b hb))

/-- A text is divided into mantissa and exponent in one way. -/
theorem takeWhile_mantissa (hm : m ∈ mantissa) (he : e ∈ optional (exponentWith isExponentMarker)) :
    (m ++ e).takeWhile (fun b => !isExponentMarker b) = m := by
  refine Lexeme.takeWhile_append_stop ?_ ?_
  · intro b hb
    rw [isExponentMarker_of_mantissa hm b hb]
    rfl
  · intro b hb
    rcases mem_optional.mp he with rfl | he
    · cases hb
    · obtain ⟨c, s, ds, hc, -, -, rfl⟩ := mem_exponentWith.mp he
      cases hb
      rw [hc]
      rfl

/-- The digits in front of a number's text and its fraction are a
mantissa. -/
theorem Parts.mantissa (h : n.Parts whole fraction exponent) :
    whole ++ fraction ∈ Grammar.mantissa :=
  mem_mantissa.mpr ⟨whole, fraction, h.whole_digits, h.fraction_mem, rfl⟩

/-- If a text is divided into a mantissa and an exponent, the mantissa is
what the number has as its first two parts. -/
theorem Parts.mantissa_eq (h : n.Parts whole fraction exponent) (htext : n.text = m ++ e)
    (hm : m ∈ Grammar.mantissa) (he : e ∈ optional (exponentWith isExponentMarker)) :
    whole ++ fraction = m := by
  rw [← takeWhile_mantissa h.mantissa h.exponent_mem, List.append_assoc, ← h.text, htext]
  exact takeWhile_mantissa hm he

/-- A number without marker is a real one exactly if its text has a
point or the marker of an exponent. -/
theorem Parts.isReal_iff (h : n.Parts whole fraction exponent) :
    n.isReal = true ↔ ∃ b ∈ n.text, b = '.'.toUInt8 ∨ isExponentMarker b = true := by
  rw [h.isReal, h.text]
  constructor
  · rintro (hne | hne)
    · obtain ⟨ds, -, heq⟩ := (mem_fraction.mp h.fraction_mem).resolve_left hne
      exact ⟨'.'.toUInt8, by simp [heq], Or.inl rfl⟩
    · obtain ⟨c, s, ds, hc, -, -, heq⟩ :=
        mem_exponentWith.mp ((mem_optional.mp h.exponent_mem).resolve_left hne)
      exact ⟨c, by simp [heq], Or.inr hc⟩
  · rintro ⟨b, hb, hkind⟩
    rcases List.mem_append.mp hb with hb | hb
    · have hdigit := h.whole_digits b hb
      rcases hkind with rfl | hmarker
      · cases hdigit
      · rw [isExponentMarker_eq_false (Or.inl hdigit)] at hmarker
        cases hmarker
    · rcases List.mem_append.mp hb with hb | hb
      · exact Or.inl (List.ne_nil_of_mem hb)
      · exact Or.inr (List.ne_nil_of_mem hb)

/-- A real number of the grammar begins with a digit or the point. -/
theorem exists_cons_of_mem_realNumber (hu : u ∈ realNumber) :
    ∃ b rest, u = b :: rest ∧ (isDigit b = true ∨ b = '.'.toUInt8) := by
  obtain ⟨m, e, rfl, hm, ⟨d, hd, -⟩, -⟩ := exists_of_mem_realNumber hu
  obtain ⟨ds, f, hds, hf, rfl⟩ := mem_mantissa.mp hm
  cases ds with
  | cons b ds => exact ⟨b, _, rfl, Or.inl (hds b List.mem_cons_self)⟩
  | nil =>
    rcases mem_fraction.mp hf with rfl | ⟨more, -, rfl⟩
    · cases hd
    · exact ⟨'.'.toUInt8, _, rfl, Or.inr rfl⟩

/-- A real number of the grammar, behind at most one sign, is where a
number begins. -/
theorem begins_of_mem_realNumber {sign : List UInt8} (hsign : sign ∈ optional Grammar.sign)
    (hu : u ∈ realNumber) (after : List UInt8) : Begins .real sign (u ++ after) := by
  obtain ⟨b, rest, rfl, hb⟩ := exists_cons_of_mem_realNumber hu
  have hclass : Mode.real.classes .standard b = .digit :=
    classes_real_eq_digit_iff.mpr (hb.imp_right Or.inl)
  have hplain : b ≠ underscore := by
    rintro rfl
    rcases hb with hb | hb <;> cases hb
  rcases mem_optional_byte.mp hsign with rfl | ⟨s, hs, rfl⟩
  · exact .unsigned hclass hplain
  · rw [isSignByte, Bool.or_eq_true, beq_iff_eq] at hs
    rcases hs with hs | rfl
    · exact .signed hs hclass hplain
    · exact .underscored rfl

end Form

end Numeral

/-! ### The token -/

namespace Token

open Numeral

/-- What the token of a real number says that is written with the sign
`sign` or none and the bytes `u`, from the position `start` on. -/
structure IsLiteral (token : Token) (start : Nat) (sign u : List UInt8) : Prop where
  byteClass : token.byteClass = .digit
  span : token.span = ⟨start, start + (sign ++ u).length⟩
  hex : token.flags.hex = false
  real : token.flags.real = true ↔ ∃ b ∈ u, b = '.'.toUInt8 ∨ isExponentMarker b = true
  negative : token.flags.negative = true ↔ sign = ['-'.toUInt8] ∨ sign = ['_'.toUInt8]
  text : token.text = Utf8.decode (upper u)
  /-- The real value of the token is that of its text, with the sign of
  the token. -/
  realValue : ∃ value, readReal token.text = .ok value ∧
    token.realValue = some (value.signed token.flags.negative)

/-- What the token of a number without hexadecimal marker says, and
what is reported about it: the text is a mantissa and an exponent, and
it is malformed exactly if the mantissa has no digit. -/
structure IsDecimal (token : Token) (reported : List Diagnostic) (m e : List UInt8) : Prop where
  text : Utf8.encode token.text = m ++ e
  mantissa : m ∈ Grammar.mantissa
  exponent : e ∈ optional capitalExponent
  wellFormed : (∃ b ∈ m, isDigit b = true) →
    ∀ span text, Diagnostic.ofFault span ⟨.malformed, text⟩ ∉ reported
  malformed : (¬ ∃ b ∈ m, isDigit b = true) →
    reported = [Diagnostic.ofFault token.span ⟨.malformed, token.text⟩] ∧
      token.realValue = some Binary64.zero

end Token

namespace Cursor

open Numeral

variable {cursor : Cursor}

/-- A real number behind delimiters and before one, or at the end of
the line, is one token. -/
theorem isLiteral_of_scan (hclasses : cursor.classes = .standard) (fold : Bool)
    {skipped sign u after : List UInt8}
    (hremaining : cursor.remaining = skipped ++ (sign ++ (u ++ after)))
    (hskipped : ∀ b ∈ skipped, ByteClass.ofByte b = .delimiter)
    (hsign : sign ∈ optional Grammar.sign) (hu : u ∈ realNumber)
    (hafter : ∀ b ∈ after.head?, ByteClass.ofByte b = .delimiter) :
    ∃ token next, cursor.scan .real fold = (some token, next) ∧
      token.IsLiteral (cursor.position + skipped.length) sign u := by
  obtain ⟨token, next, reported, hscan, -, hspan, hscanned⟩ :=
    scan_of_begins hclasses (by decide) hremaining hskipped
      (begins_of_mem_realNumber hsign hu after) fold
  obtain ⟨htaken, hhex⟩ := run_of_mem_realNumber (isMinus sign) hu hafter
  have hmode : Mode.real ≠ .word := by decide
  obtain ⟨whole, fraction, exponent, hparts⟩ := parts_of_run hmode (isMinus sign) (u ++ after) hhex
  obtain ⟨-, hnegative, htext⟩ :=
    kept_of_run (Mode.real.classes .standard) true (signed (isMinus sign)) (u ++ after)
  replace htext := htext hhex
  rw [show (Mode.real == Mode.real) = true from rfl] at hspan hscanned hparts
  generalize (signed (isMinus sign)).run (Mode.real.classes .standard) true (u ++ after) = run at *
  -- Nothing but the literal is taken, so the text is the literal.
  rw [htaken, text_signed, List.nil_append] at htext
  rw [htaken] at hspan
  refine ⟨token, next, hscan, hscanned.byteClass, hspan, ?_, ?_, ?_, ?_, ?_⟩
  · rw [hscanned.flags]
    exact hhex
  · rw [hscanned.flags, ← htext]
    exact hparts.isReal_iff
  · rw [hscanned.flags]
    show run.1.negative = true ↔ _
    rw [hnegative, show (signed (isMinus sign)).negative = isMinus sign from rfl, isMinus,
      Bool.or_eq_true, beq_iff_eq, beq_iff_eq]
    rfl
  · rw [hscanned.text, htext]
    rfl
  · -- The mantissa of the number has a digit, so its text has a value.
    have hread := readReal_of_scanned hscanned hparts
    obtain ⟨m, e, rfl, hm, ⟨d, hd, hdigit⟩, he⟩ := exists_of_mem_realNumber hu
    rw [hparts.mantissa_eq htext hm he, if_pos (List.any_eq_true.mpr ⟨d, hd, hdigit⟩)] at hread
    obtain ⟨value, hvalue⟩ := hread
    refine ⟨value, hvalue, ?_⟩
    rw [hscanned.realValue, if_pos rfl, realValue?_of_parts hparts, hvalue, hscanned.flags]
    rfl

/-- Every number without hexadecimal marker that a scan returns has a text
of the form that the grammar gives it, and is malformed exactly if the
mantissa has no digit. -/
theorem isDecimal_of_scan (hclasses : cursor.classes = .standard) {fold : Bool} {token : Token}
    {next : Cursor} (h : cursor.scan .real fold = (some token, next))
    (hdigit : token.byteClass = .digit) (hhex : token.flags.hex = false) :
    ∃ reported m e, next.diagnostics = cursor.diagnostics ++ reported ∧
      token.IsDecimal reported m e := by
  obtain ⟨n, reported, whole, fraction, exponent, hdiagnostics, hscanned, hparts⟩ :=
    parts_of_scan hclasses h hdigit hhex
  have hreported := reported_of_parts hscanned hparts
  refine ⟨reported, whole ++ fraction, upper exponent, hdiagnostics, ?_, hparts.mantissa,
    upper_exponent hparts.exponent_mem, ?_, ?_⟩
  · rw [hscanned.text, Utf8.encode_decode (folded_ascii _ hparts.ascii), List.append_assoc,
      ← hparts.upper_text]
    rfl
  · intro hany span text hmem
    have hwell : ¬ (Mode.real = .real ∧ true = false) := by simp
    rw [List.any_eq_true.mpr hany, if_neg hwell, List.append_nil] at hreported
    rw [hreported] at hmem
    split at hmem
    · cases hmem
    · exact ofFault_ne (List.mem_singleton.mp hmem).symm
  · intro hnone
    have hany : (whole ++ fraction).any isDigit = false :=
      Bool.eq_false_iff.mpr fun hany => hnone (List.any_eq_true.mp hany)
    -- Without a digit the whole part is zero, so there is no other fault.
    have hsmall : isInteger64 n.signedWhole = true := by
      cases hlarge : isInteger64 n.signedWhole with
      | true => rfl
      | false =>
        rw [List.any_append, any_isDigit_of_large hparts hlarge] at hany
        cases hany
    have hread := readReal_of_scanned hscanned hparts
    rw [hany, if_neg Bool.false_ne_true] at hread
    rw [hsmall, hany, if_pos rfl, if_pos ⟨rfl, rfl⟩] at hreported
    refine ⟨hreported, ?_⟩
    rw [hscanned.realValue, if_pos rfl, realValue?_of_parts hparts, hread]
    rfl

/-- With nothing pinned, where real numbers are read: a number of the
grammar behind delimiters, with a delimiter or the end of the line
behind it, is one token, which covers its sign and its bytes, and has
the value that they write. Conversely the text of every number without
hexadecimal marker is a mantissa and an exponent; it is malformed, and
then read as zero, exactly if the mantissa has no digit. -/
theorem scan_real_number (hclasses : cursor.classes = .standard) (fold : Bool) :
    (∀ skipped sign u after, cursor.remaining = skipped ++ (sign ++ (u ++ after)) →
      (∀ b ∈ skipped, ByteClass.ofByte b = .delimiter) → sign ∈ optional Grammar.sign →
      u ∈ realNumber → (∀ b ∈ after.head?, ByteClass.ofByte b = .delimiter) →
        ∃ token next, cursor.scan .real fold = (some token, next) ∧
          token.IsLiteral (cursor.position + skipped.length) sign u) ∧
    ∀ token next, cursor.scan .real fold = (some token, next) → token.byteClass = .digit →
      token.flags.hex = false →
        ∃ reported m e, next.diagnostics = cursor.diagnostics ++ reported ∧
          token.IsDecimal reported m e := by
  refine ⟨?_, ?_⟩
  · intro skipped sign u after hremaining hskipped hsign hu hafter
    exact isLiteral_of_scan hclasses fold hremaining hskipped hsign hu hafter
  · intro token next h hdigit hhex
    exact isDecimal_of_scan hclasses h hdigit hhex

/-- The number `-1.5e_2` of the line `; -1.5e_2 x`. -/
theorem scan_real_number_with_exponent : ∃ cursor, Settings.standard.cursor?
      [0x3b, 0x20, 0x2d, 0x31, 0x2e, 0x35, 0x65, 0x5f, 0x32, 0x20, 0x78] = some cursor ∧
    cursor.classes = .standard ∧
    ∃ token next, cursor.scan .real true = (some token, next) ∧
      token.IsLiteral 2 [0x2d] [0x31, 0x2e, 0x35, 0x65, 0x5f, 0x32] ∧
      ∃ reported m e, next.diagnostics = cursor.diagnostics ++ reported ∧
        token.IsDecimal reported m e := by
  have hmantissa : [0x31, 0x2e, 0x35] ∈ digits * fraction + decimalPoint * digits :=
    Or.inl (Language.append_mem_mul (a := [0x31]) (b := [0x2e, 0x35])
      (mem_digits.mpr (by decide +kernel))
      (mem_fraction.mpr (Or.inr ⟨[0x35], by decide +kernel, rfl⟩)))
  have hexponent : [0x65, 0x5f, 0x32] ∈ exponentWith isExponentMarker :=
    mem_exponentWith.mpr ⟨0x65, [0x5f], [0x32], rfl,
      mem_optional_byte.mpr (Or.inr ⟨0x5f, rfl, rfl⟩), mem_digits.mpr (by decide +kernel), rfl⟩
  have hnumber : [0x31, 0x2e, 0x35] ++ [0x65, 0x5f, 0x32] ∈ realNumber :=
    Language.append_mem_mul hmantissa (mem_optional.mpr (Or.inr hexponent))
  obtain ⟨cursor, hcursor, hclasses, hstart, hremaining⟩ : ∃ cursor, Settings.standard.cursor?
        [0x3b, 0x20, 0x2d, 0x31, 0x2e, 0x35, 0x65, 0x5f, 0x32, 0x20, 0x78] = some cursor ∧
      cursor.classes = .standard ∧ cursor.position = 0 ∧
      cursor.remaining = [0x3b, 0x20] ++ ([0x2d] ++ ([0x31, 0x2e, 0x35, 0x65, 0x5f, 0x32]
        ++ [0x20, 0x78])) := ⟨_, rfl, rfl, rfl, rfl⟩
  obtain ⟨hcomplete, hsound⟩ := scan_real_number hclasses true
  obtain ⟨token, next, hscan, hliteral⟩ := hcomplete _ _ _ _ hremaining (by decide +kernel)
    (mem_optional_byte.mpr (Or.inr ⟨0x2d, rfl, rfl⟩)) hnumber (by decide +kernel)
  rw [hstart] at hliteral
  exact ⟨cursor, hcursor, hclasses, token, next, hscan, hliteral,
    hsound token next hscan hliteral.byteClass hliteral.hex⟩

end Cursor

end LineLexer
