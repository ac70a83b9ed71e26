import LineLexer.Proofs.Characters
import LineLexer.Proofs.Faults

/-!
# `LineLexer.Proofs.Folding`: folding changes the case of letters only

Letters become capitals before a token's bytes are read as text and
before its value is taken. So folding is harmless if neither depends on
case. The bytes need not be well-formed: where they are read as U+FFFD
the bytes in capitals are too, since no byte of a longer character is a
letter and no letter is a byte of one.

* `Utf8.readChar_upper`, `Utf8.decode_upper`: bytes in capitals are read
  as the text in capitals.
* `Numeral.readHex_toUpper`, `Numeral.faults_toUpper`: the value of a
  number and what is wrong with it do not depend on case.
* `NumeralFault.kind_of_message`: a message tells what is wrong.
* `Token.Capitalised`, `Diagnostic.Capitalised`: what folding does to a
  token and to a diagnostic.
* `scanLine_capitalised`: folding a line's tokens and diagnostics puts
  their texts in capitals and changes nothing else.
-/

set_option autoImplicit false

namespace LineLexer

open Ascii

/-! ### Bytes in capitals -/

namespace Utf8

/-- A byte and its capital are both ASCII, or the byte is its own
capital. -/
theorem toUpper_cases : ∀ b : UInt8, (b < 0x80 ∧ toUpper b < 0x80) ∨ (¬ b < 0x80 ∧ toUpper b = b) :=
  forall_byte (by decide +kernel)

/-- The bytes that continue a character run from 0x80 to 0xBF. -/
theorem bounds_of_isTail : ∀ b : UInt8, isTail b = true → 0x80 ≤ b.toNat ∧ b.toNat ≤ 0xBF :=
  forall_byte (by decide +kernel)

/-- No ASCII byte continues a character. -/
theorem isTail_of_ascii : ∀ b : UInt8, b < 0x80 → isTail b = false :=
  forall_byte (by decide +kernel)

/-- A byte that may stand second in a character is one of those that
continue characters. -/
theorem isTail_of_isSecond {lead b : UInt8} (h : isSecond lead b = true) : isTail b = true := by
  have hbetween : ∀ low high : UInt8, 0x80 ≤ low → high ≤ 0xBF → (low ≤ b && b ≤ high) = true →
      isTail b = true := by
    intro low high hlow hhigh hb
    simp only [isTail, Bool.and_eq_true, decide_eq_true_iff] at hb ⊢
    exact ⟨UInt8.le_trans hlow hb.1, UInt8.le_trans hb.2 hhigh⟩
  unfold isSecond at h
  split at h
  · exact hbetween _ _ (by decide) (by decide) h
  split at h
  · exact hbetween _ _ (by decide) (by decide) h
  split at h
  · exact hbetween _ _ (by decide) (by decide) h
  split at h
  · exact hbetween _ _ (by decide) (by decide) h
  · exact h

/-- Behind the first bytes of the least characters of three and of four
bytes the second byte is bounded from below. This is what keeps out
overlong forms. -/
theorem le_of_isSecond {lead b : UInt8} (h : isSecond lead b = true) :
    (lead.toNat = 0xE0 → 0xA0 ≤ b.toNat) ∧ (lead.toNat = 0xF0 → 0x90 ≤ b.toNat) := by
  have hE0 : ∀ b : UInt8, isSecond 0xE0 b = true → 0xA0 ≤ b.toNat :=
    forall_byte (by decide +kernel)
  have hF0 : ∀ b : UInt8, isSecond 0xF0 b = true → 0x90 ≤ b.toNat :=
    forall_byte (by decide +kernel)
  constructor
  · intro hlead
    obtain rfl : lead = 0xE0 := UInt8.toNat_inj.mp hlead
    exact hE0 b h
  · intro hlead
    obtain rfl : lead = 0xF0 := UInt8.toNat_inj.mp hlead
    exact hF0 b h

/-- A byte continues a character exactly if its capital does. -/
theorem isTail_toUpper (b : UInt8) : isTail (toUpper b) = isTail b := by
  rcases toUpper_cases b with ⟨hb, hupper⟩ | ⟨-, hsame⟩
  · rw [isTail_of_ascii b hb, isTail_of_ascii _ hupper]
  · rw [hsame]

/-- No ASCII byte stands second in a character. -/
theorem isSecond_of_ascii {lead b : UInt8} (hb : b < 0x80) : isSecond lead b = false := by
  by_contra h
  rw [Bool.not_eq_false] at h
  have htail := isTail_of_isSecond h
  rw [isTail_of_ascii b hb] at htail
  cases htail

/-- A byte may stand second in a character exactly if its capital may. No
letter may. -/
theorem isSecond_toUpper (lead b : UInt8) : isSecond lead (toUpper b) = isSecond lead b := by
  rcases toUpper_cases b with ⟨hb, hupper⟩ | ⟨-, hsame⟩
  · rw [isSecond_of_ascii hb, isSecond_of_ascii hupper]
  · rw [hsame]

/-- Bytes that continue a character are their own capitals. -/
theorem upper_of_isTail {bytes : List UInt8} (h : ∀ b ∈ bytes, isTail b = true) :
    upper bytes = bytes := by
  have hsame : ∀ b ∈ bytes, toUpper b = id b := by
    intro b hb
    rcases toUpper_cases b with ⟨hascii, -⟩ | ⟨-, hsame⟩
    · have htail := h b hb
      rw [isTail_of_ascii b hascii] at htail
      cases htail
    · exact hsame
  rw [upper, List.map_congr_left hsame, List.map_id]

/-- The same bytes continue a character when those behind it are in
capitals. -/
theorem tails_upper (lead : UInt8) (count : Nat) (rest : List UInt8) :
    tails lead count (upper rest) = tails lead count rest := by
  unfold tails
  rw [upper, ← List.map_take]
  cases rest.take count with
  | nil => rfl
  | cons b more =>
    have htails : (upper more).takeWhile isTail = more.takeWhile isTail := by
      have htail : isTail ∘ toUpper = isTail := funext isTail_toUpper
      rw [upper, List.takeWhile_map, htail]
      exact upper_of_isTail fun b hb => List.mem_takeWhile_imp hb
    rw [List.map_cons]
    dsimp only
    rw [isSecond_toUpper]
    by_cases hsecond : isSecond lead b = true
    · rcases toUpper_cases b with ⟨hascii, -⟩ | ⟨-, hsame⟩
      · rw [isSecond_of_ascii hascii] at hsecond
        cases hsecond
      · rw [if_pos hsecond, if_pos hsecond, hsame]
        exact congrArg (b :: ·) htails
    · rw [if_neg hsecond, if_neg hsecond]

/-- What continues a character begins with a byte that may stand
second. -/
theorem head_of_tails {lead b : UInt8} {count : Nat} {rest more : List UInt8}
    (h : tails lead count rest = b :: more) : isSecond lead b = true := by
  unfold tails at h
  split at h
  · cases h
  · split at h
    · next hsecond =>
      obtain ⟨rfl, -⟩ := List.cons.inj h
      exact hsecond
    · cases h

/-- The first byte of a character of several bytes, by their number. Any
other byte from 0x80 on begins no character. -/
theorem lead_cases : ∀ lead : UInt8, ¬ lead < 0x80 →
    tailCount? lead = none ∨
      (tailCount? lead = some 1 ∧ 0xC2 ≤ lead.toNat ∧ lead.toNat ≤ 0xDF) ∨
      (tailCount? lead = some 2 ∧ 0xE0 ≤ lead.toNat ∧ lead.toNat ≤ 0xEF) ∨
      (tailCount? lead = some 3 ∧ 0xF0 ≤ lead.toNat ∧ lead.toNat ≤ 0xF4) :=
  forall_byte (by decide +kernel)

/-- A character that is read from several bytes is none of the ASCII
characters. -/
theorem codePoint_ge {lead : UInt8} (hlead : ¬ lead < 0x80) {count : Nat}
    (hcount : tailCount? lead = some count) {rest : List UInt8}
    (hlength : (tails lead count rest).length = count) :
    0x80 ≤ codePoint lead (tails lead count rest) := by
  generalize htails : tails lead count rest = found at hlength ⊢
  -- The least character of each length is excluded by what may stand second.
  rcases lead_cases lead hlead with hnone | ⟨hone, hlow, hhigh⟩ | ⟨htwo, hlow, hhigh⟩ |
    ⟨hthree, hlow, hhigh⟩
  · rw [hnone] at hcount
    cases hcount
  · obtain rfl := Option.some.inj (hone.symm.trans hcount)
    obtain ⟨b, rfl⟩ := List.length_eq_one_iff.mp hlength
    simp only [codePoint, List.foldl, leadBits, List.length_cons, List.length_nil]
    omega
  · obtain rfl := Option.some.inj (htwo.symm.trans hcount)
    obtain ⟨b, c, rfl⟩ := List.length_eq_two.mp hlength
    have hsecond := head_of_tails htails
    have hb := bounds_of_isTail b (isTail_of_isSecond hsecond)
    have hE0 := (le_of_isSecond hsecond).1
    simp only [codePoint, List.foldl, leadBits, List.length_cons, List.length_nil]
    omega
  · obtain rfl := Option.some.inj (hthree.symm.trans hcount)
    obtain ⟨b, c, d, rfl⟩ := List.length_eq_three.mp hlength
    have hsecond := head_of_tails htails
    have hb := bounds_of_isTail b (isTail_of_isSecond hsecond)
    have hF0 := (le_of_isSecond hsecond).2
    simp only [codePoint, List.foldl, leadBits, List.length_cons, List.length_nil]
    omega

/-- A code point that is not ASCII is its own capital. This includes a
number that is no code point at all. -/
theorem toUpper_ofNat {point : Nat} (h : 0x80 ≤ point) :
    (Char.ofNat point).toUpper = Char.ofNat point := by
  by_cases hvalid : point.isValidChar
  · apply toUpper_of_high
    rw [Char.ofNat, dif_pos hvalid]
    exact h
  · have hzero : Char.ofNat point = '\x00' := by
      rw [Char.ofNat, dif_neg hvalid]
      rfl
    rw [hzero]
    rfl

/-- What relates ASCII characters to their capitals and a character to
itself relates that character to its capital. -/
theorem toUpper_induction {p : Char → Char → Prop} (c : Char)
    (hascii : ∀ b : UInt8, b < 0x80 → p (Char.ofNat b.toNat) (Char.ofNat b.toNat).toUpper)
    (hself : p c c) : p c c.toUpper := by
  rcases encodeChar_cases c with ⟨b, hb, rfl, -⟩ | ⟨hhigh, -⟩
  · exact hascii b hb
  · rwa [toUpper_of_high hhigh]

/-- Upper-casing the bytes of a character gives those of its capital, and
takes up as many. What is no character is read as U+FFFD again. -/
theorem readChar_upper (lead : UInt8) (rest : List UInt8) :
    readChar (toUpper lead) (upper rest)
      = ((readChar lead rest).1.toUpper, (readChar lead rest).2) := by
  rcases toUpper_cases lead with ⟨hascii, hupper⟩ | ⟨hlead, hsame⟩
  · have hchar : ∀ b : UInt8, b < 0x80 →
        Char.ofNat (toUpper b).toNat = (Char.ofNat b.toNat).toUpper :=
      forall_byte (by decide +kernel)
    rw [readChar_ascii hascii, readChar_ascii hupper, hchar lead hascii]
  · rw [hsame]
    unfold readChar
    cases hcount : tailCount? lead with
    | none => rfl
    | some count =>
      dsimp only
      rw [tails_upper]
      by_cases hlength : (tails lead count rest).length = count
      · have hpoint := codePoint_ge hlead hcount hlength
        rw [if_pos hlength, toUpper_ofNat hpoint]
      · rw [if_neg hlength]
        rfl

/-- Bytes in capitals are read as the characters in capitals, whether they
are well-formed or not. -/
theorem decodeChars_upper (bytes : List UInt8) :
    decodeChars (upper bytes) = (decodeChars bytes).map Char.toUpper := by
  fun_induction decodeChars bytes with
  | case1 =>
    show decodeChars [] = []
    exact decodeChars_nil
  | case2 lead rest ih =>
    show decodeChars (toUpper lead :: upper rest) = _
    rw [decodeChars_cons, readChar_upper, List.map_cons, ← ih]
    dsimp only
    rw [upper, upper, List.map_drop]

/-- Bytes in capitals are read as the text in capitals, whether they are
well-formed or not. -/
theorem decode_upper (bytes : List UInt8) : decode (upper bytes) = (decode bytes).toUpper := by
  apply String.toList_inj.mp
  show (String.ofList _).toList = (String.map Char.toUpper (String.ofList _)).toList
  rw [String.toList_map, String.toList_ofList, String.toList_ofList, decodeChars_upper]

end Utf8

/-! ### Numbers in capitals -/

namespace Numeral

section Char
variable (c : Char)

/-- A capital letter is worth as much as a hexadecimal digit as the small
letter is. -/
theorem hexDigit?_toUpper : hexDigit? c.toUpper = hexDigit? c := by
  apply Utf8.toUpper_induction (p := fun c d => hexDigit? d = hexDigit? c)
  · exact forall_byte (by decide +kernel)
  · rfl

/-- A capital letter is a marker of hexadecimal numerals exactly if the
small letter is. -/
theorem isHexMarker_toUpper : isHexMarker c.toUpper = isHexMarker c := by
  apply Utf8.toUpper_induction (p := fun c d => isHexMarker d = isHexMarker c)
  · exact forall_byte (by decide +kernel)
  · rfl

/-- The capital of a character that is no sign is no sign. -/
theorem toUpper_ne_sign (hplus : c ≠ '+') (hminus : c ≠ '-') :
    c.toUpper ≠ '+' ∧ c.toUpper ≠ '-' := by
  revert hplus hminus
  apply Utf8.toUpper_induction (p := fun c d => c ≠ '+' → c ≠ '-' → d ≠ '+' ∧ d ≠ '-')
  · exact forall_byte (by decide +kernel)
  · exact And.intro

end Char

/-- Hexadecimal digits in capitals are read as the same number, with the
same fault if they have one. -/
theorem hexDigits?_toUpper (negative : Bool) (value : Int) (digits : List Char) :
    hexDigits? negative value (digits.map Char.toUpper) = hexDigits? negative value digits := by
  induction digits generalizing value with
  | nil => rfl
  | cons c rest ih =>
    rw [List.map_cons, hexDigits?, hexDigits?, hexDigit?_toUpper]
    cases hexDigit? c with
    | none => rfl
    | some digit =>
      dsimp only
      rw [ih]

/-- Hexadecimal digits behind a sign are read as the same number in
capitals. -/
theorem signedHex?_toUpper (negative : Bool) (digits : List Char) :
    signedHex? negative (digits.map Char.toUpper) = signedHex? negative digits := by
  rw [signedHex?, signedHex?, hexDigits?_toUpper, List.isEmpty_map]

/-- The sign in front of a text in capitals is that of the text, and what
follows it is in capitals. -/
theorem splitSign_toUpper (chars : List Char) :
    splitSign (chars.map Char.toUpper)
      = ((splitSign chars).1, (splitSign chars).2.map Char.toUpper) := by
  cases chars with
  | nil => rfl
  | cons c rest =>
    by_cases hplus : c = '+'
    · subst hplus
      rfl
    by_cases hminus : c = '-'
    · subst hminus
      rfl
    · have hhead : ∀ head ∈ (c :: rest).head?, head ≠ '+' ∧ head ≠ '-' := by
        simpa using ⟨hplus, hminus⟩
      have hupper : ∀ head ∈ ((c :: rest).map Char.toUpper).head?, head ≠ '+' ∧ head ≠ '-' := by
        simpa using toUpper_ne_sign c hplus hminus
      rw [splitSign_of_head hhead, splitSign_of_head hupper]

/-- A hexadecimal text in capitals is read as the same number. If it is
read as none, what is wrong is the same, and the fault names the text in
capitals. -/
theorem readHex_toUpper (text : String) :
    readHex text.toUpper
      = (readHex text).mapError fun fault => ⟨fault.kind, text.toUpper⟩ := by
  have hfilter : (text.toUpper.toList.filter fun c => !isHexMarker c)
      = (text.toList.filter fun c => !isHexMarker c).map Char.toUpper := by
    have hmarker : (fun c => !isHexMarker c) ∘ Char.toUpper = fun c => !isHexMarker c :=
      funext fun c => congrArg (! ·) (isHexMarker_toUpper c)
    show ((String.map Char.toUpper text).toList.filter fun c => !isHexMarker c) = _
    rw [String.toList_map, List.filter_map, hmarker]
  by_cases hempty : (text.toList.filter fun c => !isHexMarker c) = []
  · rw [readHex, readHex, hfilter, hempty]
    rfl
  · have hmap : (text.toList.filter fun c => !isHexMarker c).map Char.toUpper ≠ [] := by
      simpa using hempty
    rw [readHex_eq hfilter hmap, readHex_eq rfl hempty, splitSign_toUpper, signedHex?_toUpper]
    cases signedHex? _ _ <;> rfl

/-- The integer value of a number does not depend on the case of its text.
A fault is of the same kind, and names the text in capitals. -/
theorem value?_toUpper (n : Numeral) (text : String) :
    n.value? text.toUpper
      = (n.value? text).mapError fun fault => ⟨fault.kind, text.toUpper⟩ := by
  cases hhex : n.hex with
  | true =>
    rw [value?, value?, if_pos hhex, if_pos hhex, readHex_toUpper]
    cases readHex text <;> rfl
  | false =>
    rw [value?_of_not_hex hhex, value?_of_not_hex hhex]
    split <;> rfl

/-- The faults of a number outside of real mode do not depend on the case
of its text. Real mode always has capitals. -/
theorem faults_toUpper (n : Numeral) {mode : Mode} (hmode : mode ≠ .real) (text : String) :
    n.faults mode text.toUpper = n.faults mode text := by
  unfold faults
  rw [if_neg hmode, if_neg hmode, List.append_nil, List.append_nil, value?_toUpper]
  cases n.value? text <;> rfl

end Numeral

/-! ### What is wrong with a number -/

/-- The first character of a message tells what is wrong. -/
theorem NumeralFault.head?_message (fault : NumeralFault) :
    fault.message.toList.head? = some (match fault.kind with
      | .malformed => '\x22'
      | .hexOutOfRange => 'H'
      | .integerOutOfRange => 'I') := by
  obtain ⟨kind, text⟩ := fault
  cases kind <;> simp [message, Quoted.quoted]

/-- Equal messages tell of the same kind of fault, whatever texts they
name. -/
theorem NumeralFault.kind_of_message {fault other : NumeralFault}
    (h : fault.message = other.message) : fault.kind = other.kind := by
  have hhead := fault.head?_message
  rw [h, other.head?_message] at hhead
  revert hhead
  cases fault.kind <;> cases other.kind <;> decide

/-! ### Tokens in capitals -/

/-- The text of a lexeme in capitals is the text of the folded lexeme,
whether it was folded before or not. -/
theorem Lexeme.text_toUpper (lexeme : Lexeme) (fold : Bool) :
    (lexeme.text fold).toUpper = lexeme.text true := by
  -- Capitals in the bytes are capitals in the text, once or twice.
  have hbytes : ∀ bytes : List UInt8, (Utf8.decode (folded fold bytes)).toUpper
      = Utf8.decode (folded true bytes) := by
    intro bytes
    rw [← Utf8.decode_upper]
    cases fold with
    | false => rfl
    | true =>
      have hidem : toUpper ∘ toUpper = toUpper := funext toUpper_idem
      show Utf8.decode ((bytes.map toUpper).map toUpper) = Utf8.decode (bytes.map toUpper)
      rw [List.map_map, hidem]
  cases lexeme with
  | operator op spelling => exact hbytes spelling
  | numeral n => exact hbytes n.text
  | word bytes => exact hbytes bytes
  | quoted inside tail =>
    rw [text, text, ← hbytes, ← hbytes]
    apply String.toList_inj.mp
    show (String.map Char.toUpper _).toList
      = (String.map Char.toUpper _ ++ String.map Char.toUpper _).toList
    simp

/-- How a token differs from the one of the same bytes in capitals: in
its text, and in its integer value if that is a sum of bytes. -/
structure Token.Capitalised (token capital : Token) : Prop where
  text : capital.text = token.text.toUpper
  rawText : capital.rawText = token.rawText
  span : capital.span = token.span
  byteClass : capital.byteClass = token.byteClass
  delimiter : capital.delimiter = token.delimiter
  delimiterClass : capital.delimiterClass = token.delimiterClass
  intValue : token.byteClass = .digit ∨ token.byteClass = .operator →
    capital.intValue = token.intValue
  realValue : capital.realValue = token.realValue
  flags : capital.flags = token.flags

/-- How a diagnostic differs from the one about the same bytes in
capitals: it is about the same span and tells of the same, but names
another text. -/
def Diagnostic.Capitalised (diagnostic capital : Diagnostic) : Prop :=
  ∃ kind text, diagnostic = ofFault diagnostic.span ⟨kind, text⟩ ∧
    capital = ofFault diagnostic.span ⟨kind, text.toUpper⟩

/-- Two diagnostics that differ as folding makes them differ are about
faults of one kind. -/
theorem Diagnostic.Capitalised.kind_eq {diagnostic capital : Diagnostic}
    (h : diagnostic.Capitalised capital) {span place : Span} {fault other : NumeralFault}
    (hfault : diagnostic = ofFault span fault) (hother : capital = ofFault place other) :
    fault.kind = other.kind := by
  obtain ⟨kind, text, hplain, hcapital⟩ := h
  have hleft : fault.message = NumeralFault.message ⟨kind, text⟩ :=
    congrArg Diagnostic.text (hfault.symm.trans hplain)
  have hright : other.message = NumeralFault.message ⟨kind, text.toUpper⟩ :=
    congrArg Diagnostic.text (hother.symm.trans hcapital)
  exact (NumeralFault.kind_of_message hleft).trans (NumeralFault.kind_of_message hright).symm

section Cut
variable (cut : Lexeme.Cut) (classes : ClassTable) (mode : Mode) (start : Nat)

/-- The text of a cut's token with folded letters is the text without
folding in capitals. -/
theorem Lexeme.Cut.text_scanned_true :
    (cut.scanned classes mode true start).token.text
      = (cut.scanned classes mode false start).token.text.toUpper := by
  have hfolds : mode.folds true = true := Bool.or_true _
  show cut.lexeme.text (mode.folds true) = (cut.lexeme.text (mode.folds false)).toUpper
  rw [hfolds, Lexeme.text_toUpper]

/-- The token of a cut with folded letters differs from the one without
folding in its text, and in its integer value if that is a sum of
bytes. -/
theorem Lexeme.Cut.capitalised_token :
    (cut.scanned classes mode false start).token.Capitalised
      (cut.scanned classes mode true start).token where
  text := cut.text_scanned_true classes mode start
  rawText := rfl
  span := rfl
  byteClass := rfl
  delimiter := rfl
  delimiterClass := rfl
  intValue h := by
    cases hlexeme : cut.lexeme with
    | numeral n =>
      have hplain := cut.scannedAs hlexeme classes mode false start
      have hcapital := cut.scannedAs hlexeme classes mode true start
      rw [hplain.intValue, hcapital.intValue, cut.text_scanned_true, n.value?_toUpper]
      cases n.value? (cut.scanned classes mode false start).token.text <;> rfl
    | operator op spelling =>
      simp only [scanned, hlexeme]
      rfl
    | word | quoted =>
      -- Words have the sum of their bytes for a value.
      have hclass : (cut.scanned classes mode false start).token.byteClass = .other :=
        congrArg byteClass hlexeme
      rw [hclass] at h
      rcases h with h | h <;> cases h
  realValue := by
    -- Real numbers have capitals anyway, and outside of real mode there is no real value.
    cases mode <;> rfl
  flags := rfl

/-- The diagnostics about a cut with folded letters differ from those
without folding in the text that they name. -/
theorem Lexeme.Cut.capitalised_diagnostics :
    List.Forall₂ Diagnostic.Capitalised (cut.scanned classes mode false start).diagnostics
      (cut.scanned classes mode true start).diagnostics := by
  cases hlexeme : cut.lexeme with
  | numeral n =>
    have hplain := cut.scannedAs hlexeme classes mode false start
    have hcapital := cut.scannedAs hlexeme classes mode true start
    have htext := cut.text_scanned_true classes mode start
    have hspan := (cut.capitalised_token classes mode start).span
    -- In real mode both scans fold; otherwise folding does not change what is wrong.
    have hfaults : n.faults mode (cut.scanned classes mode true start).token.text
        = n.faults mode (cut.scanned classes mode false start).token.text := by
      by_cases hmode : mode = .real
      · rw [hmode]
        rfl
      · rw [htext, n.faults_toUpper hmode]
    rw [hplain.reported_eq, hcapital.reported_eq, hfaults, Token.reports, Token.reports,
      List.forall₂_map_left_iff, List.forall₂_map_right_iff, List.forall₂_same]
    intro kind _
    refine ⟨kind, _, rfl, ?_⟩
    rw [htext, hspan]
    rfl
  | operator | word | quoted =>
    have hclass : cut.lexeme.byteClass ≠ .digit := by simp [hlexeme, byteClass]
    rw [cut.diagnostics_of_ne_digit hclass, cut.diagnostics_of_ne_digit hclass]
    exact .nil

end Cut

/-! ### Whole lines -/

/-- The tokens and diagnostics of some bytes with folded letters differ
from those without folding as stated for a single cut, one after the
other. Which bytes are cut off does not depend on folding. -/
theorem scannedFrom_capitalised (classes : ClassTable) (mode : Mode) (start : Nat)
    (bytes : List UInt8) :
    List.Forall₂
      (fun plain capital => plain.token.Capitalised capital.token ∧
        List.Forall₂ Diagnostic.Capitalised plain.diagnostics capital.diagnostics)
      (scannedFrom classes mode false start bytes) (scannedFrom classes mode true start bytes) := by
  fun_induction scannedFrom classes mode false start bytes with
  | case1 start bytes h =>
    rw [scannedFrom_of_none h]
    exact .nil
  | case2 start bytes cut h first ih =>
    rw [scannedFrom_of_some h]
    exact .cons ⟨cut.capitalised_token classes mode first,
      cut.capitalised_diagnostics classes mode first⟩ ih

/-- Folding changes the case of letters in the texts of tokens and in the
texts that diagnostics name, the integer values of words, and nothing
else. In particular every token covers the same bytes. -/
theorem scanLine_capitalised (bytes pinned : List UInt8) (mode : Mode) :
    let plain := scanLine bytes ⟨false, pinned, mode⟩
    let capital := scanLine bytes ⟨true, pinned, mode⟩
    List.Forall₂ Token.Capitalised plain.1 capital.1 ∧
      List.Forall₂ Diagnostic.Capitalised plain.2 capital.2 := by
  intro plain capital
  have hscanned := scannedFrom_capitalised (Settings.classes ⟨false, pinned, mode⟩) mode 0
    (bytes.takeWhile (· != 0))
  -- The classes do not depend on folding either.
  have hclasses : Settings.classes ⟨true, pinned, mode⟩ = Settings.classes ⟨false, pinned, mode⟩ :=
    rfl
  simp only [plain, capital, scanLine_eq, hclasses]
  constructor
  · rw [List.forall₂_map_left_iff, List.forall₂_map_right_iff]
    exact hscanned.imp fun _ _ h => h.1
  · exact List.rel_flatMap hscanned fun _ _ h => h.2

-- A word has the sum of its text for a value, so that of `a` is another one in capitals.
example : (scanLine [0x61] ⟨false, [], .plain⟩).1.map Token.intValue = [97] ∧
    (scanLine [0x61] ⟨true, [], .plain⟩).1.map Token.intValue = [65] := by
  decide +kernel

end LineLexer
