import LineLexer.Proofs.NumeralText

/-!
# `LineLexer.Proofs.Characters`: bytes that spell characters

Where the bytes of a line are well-formed UTF-8 nothing is replaced
when they are read, and they can be cut before and behind every ASCII
byte: no byte of a longer character is one.

* `Utf8.encodeChars`: the bytes of some characters.
* `decodeChars_encodeChars`, `decode_encode`: what is written is read
  back.
* `Utf8.IsText`: bytes that spell characters.
* `IsText.of_append_cons`: such bytes can be cut at an ASCII byte.
* `IsText.isValid`: where both parts of a text spell characters is a
  valid position of it.
* `folded_encodeChars`, `replacements_folded`: letters in capitals
  spell characters too, and as many U+FFFD.
-/

set_option autoImplicit false

namespace LineLexer.Utf8

open Ascii

/-- The UTF-8 bytes of some characters, one character after the other.
They are what a well-formed line is made of. -/
def encodeChars (chars : List Char) : List UInt8 := chars.flatMap String.utf8EncodeChar

/-- The bytes of a text are those of its characters. What is shown of
characters holds of texts by this. -/
theorem encode_eq (text : String) : encode text = encodeChars text.toList := by
  rw [encodeChars, ← encode_ofList, String.ofList_toList]

@[simp] theorem encodeChars_nil : encodeChars [] = [] := rfl

/-- The bytes of some characters begin with those of the first one. -/
theorem encodeChars_cons (c : Char) (chars : List Char) :
    encodeChars (c :: chars) = String.utf8EncodeChar c ++ encodeChars chars :=
  List.flatMap_cons

/-- The bytes of characters in front of others stand in front of the bytes
of the others. -/
@[simp] theorem encodeChars_append (chars more : List Char) :
    encodeChars (chars ++ more) = encodeChars chars ++ encodeChars more :=
  List.flatMap_append

/-! ### What is written is read back -/

/-- A byte from 0x80 to 0xBF may stand second in a character, but for a
few first bytes behind which the range is narrower. Those keep out
overlong forms, surrogates and code points past the last one. -/
theorem isSecond_of_bounds {lead b : UInt8} (hlow : 0x80 ≤ b.toNat) (hhigh : b.toNat ≤ 0xBF)
    (hE0 : lead.toNat = 0xE0 → 0xA0 ≤ b.toNat) (hED : lead.toNat = 0xED → b.toNat ≤ 0x9F)
    (hF0 : lead.toNat = 0xF0 → 0x90 ≤ b.toNat) (hF4 : lead.toNat = 0xF4 → b.toNat ≤ 0x8F) :
    isSecond lead b = true := by
  have hle : ∀ low high : UInt8, low.toNat ≤ b.toNat → b.toNat ≤ high.toNat →
      (low ≤ b && b ≤ high) = true := by
    intro low high hlow hhigh
    simp [UInt8.le_iff_toNat_le, hlow, hhigh]
  have htoNat : ∀ {byte : UInt8}, (lead == byte) = true → lead.toNat = byte.toNat :=
    fun h => congrArg UInt8.toNat (beq_iff_eq.mp h)
  unfold isSecond
  split
  · next h => exact hle 0xA0 0xBF (hE0 (htoNat h)) hhigh
  split
  · next h => exact hle 0x80 0x9F hlow (hED (htoNat h))
  split
  · next h => exact hle 0x90 0xBF (hF0 (htoNat h)) hhigh
  split
  · next h => exact hle 0x80 0x8F hlow (hF4 (htoNat h))
  · exact hle 0x80 0xBF hlow hhigh

/-- A byte from 0x80 to 0xBF may stand third or fourth in a character. -/
theorem isTail_of_bounds {b : UInt8} (hlow : 0x80 ≤ b.toNat) (hhigh : b.toNat ≤ 0xBF) :
    isTail b = true := by
  rw [isTail, Bool.and_eq_true, decide_eq_true_iff, decide_eq_true_iff, UInt8.le_iff_toNat_le,
    UInt8.le_iff_toNat_le]
  exact ⟨hlow, hhigh⟩

/-- How many bytes follow the first byte of a character of two, three or
four bytes. -/
theorem tailCount?_of_bounds : ∀ lead : UInt8,
    (0xC2 ≤ lead.toNat → lead.toNat ≤ 0xDF → tailCount? lead = some 1) ∧
    (0xE0 ≤ lead.toNat → lead.toNat ≤ 0xEF → tailCount? lead = some 2) ∧
    (0xF0 ≤ lead.toNat → lead.toNat ≤ 0xF4 → tailCount? lead = some 3) :=
  forall_byte (by decide +kernel)

/-- The byte that is made of six bits of a code point, as a natural
number. It does not wrap around. -/
theorem toNat_tail (v : Nat) : (UInt8.ofNat (v % 64 + 128)).toNat = v % 64 + 128 := by
  rw [UInt8.toNat_ofNat']
  omega

section Read
variable {v : Nat} (rest : List UInt8)

/-- The two bytes of a code point below 0x800 are read as that character,
whatever follows them. -/
theorem readChar_two (hlow : 0x80 ≤ v) (hhigh : v ≤ 0x7FF) :
    readChar (UInt8.ofNat (v / 64 % 32 + 192)) (UInt8.ofNat (v % 64 + 128) :: rest)
      = (Char.ofNat v, 1) := by
  have hlead : (UInt8.ofNat (v / 64 % 32 + 192)).toNat = v / 64 + 192 := by
    rw [UInt8.toNat_ofNat']
    omega
  have hb := toNat_tail v
  generalize UInt8.ofNat (v / 64 % 32 + 192) = lead at *
  generalize UInt8.ofNat (v % 64 + 128) = b at *
  have hsecond : isSecond lead b = true := by apply isSecond_of_bounds <;> omega
  have hpoint : codePoint lead [b] = v := by
    simp only [codePoint, List.foldl, leadBits, List.length_cons, List.length_nil]
    omega
  rw [readChar, (tailCount?_of_bounds lead).1 (by omega) (by omega)]
  simp [tails, hsecond, hpoint]

/-- The three bytes of a code point below 0x10000 are read as that
character, whatever follows them. The surrogates are no characters. -/
theorem readChar_three (hlow : 0x800 ≤ v) (hhigh : v ≤ 0xFFFF)
    (hscalar : v < 0xD800 ∨ 0xDFFF < v) :
    readChar (UInt8.ofNat (v / 4096 % 16 + 224))
        (UInt8.ofNat (v / 64 % 64 + 128) :: UInt8.ofNat (v % 64 + 128) :: rest)
      = (Char.ofNat v, 2) := by
  have hlead : (UInt8.ofNat (v / 4096 % 16 + 224)).toNat = v / 4096 + 224 := by
    rw [UInt8.toNat_ofNat']
    omega
  have hb := toNat_tail (v / 64)
  have hc := toNat_tail v
  generalize UInt8.ofNat (v / 4096 % 16 + 224) = lead at *
  generalize UInt8.ofNat (v / 64 % 64 + 128) = b at *
  generalize UInt8.ofNat (v % 64 + 128) = c at *
  have hsecond : isSecond lead b = true := by apply isSecond_of_bounds <;> omega
  have htail : isTail c = true := by apply isTail_of_bounds <;> omega
  have hpoint : codePoint lead [b, c] = v := by
    simp only [codePoint, List.foldl, leadBits, List.length_cons, List.length_nil]
    omega
  rw [readChar, (tailCount?_of_bounds lead).2.1 (by omega) (by omega)]
  simp [tails, hsecond, htail, hpoint]

/-- The four bytes of a code point from 0x10000 on are read as that
character, whatever follows them. -/
theorem readChar_four (hlow : 0x10000 ≤ v) (hhigh : v < 0x110000) :
    readChar (UInt8.ofNat (v / 262144 % 8 + 240))
        (UInt8.ofNat (v / 4096 % 64 + 128) :: UInt8.ofNat (v / 64 % 64 + 128)
          :: UInt8.ofNat (v % 64 + 128) :: rest)
      = (Char.ofNat v, 3) := by
  have hlead : (UInt8.ofNat (v / 262144 % 8 + 240)).toNat = v / 262144 + 240 := by
    rw [UInt8.toNat_ofNat']
    omega
  have hb := toNat_tail (v / 4096)
  have hc := toNat_tail (v / 64)
  have hd := toNat_tail v
  generalize UInt8.ofNat (v / 262144 % 8 + 240) = lead at *
  generalize UInt8.ofNat (v / 4096 % 64 + 128) = b at *
  generalize UInt8.ofNat (v / 64 % 64 + 128) = c at *
  generalize UInt8.ofNat (v % 64 + 128) = d at *
  have hsecond : isSecond lead b = true := by apply isSecond_of_bounds <;> omega
  have htail : isTail c = true ∧ isTail d = true := by
    constructor <;> apply isTail_of_bounds <;> omega
  have hpoint : codePoint lead [b, c, d] = v := by
    simp only [codePoint, List.foldl, leadBits, List.length_cons, List.length_nil]
    omega
  rw [readChar, (tailCount?_of_bounds lead).2.2 (by omega) (by omega)]
  simp [tails, hsecond, htail.1, htail.2, hpoint]

end Read

/-- The bytes of a character are read as that character, and exactly those
bytes are taken up. -/
theorem readChar_encodeChar (c : Char) (rest : List UInt8) :
    ∃ lead tail, String.utf8EncodeChar c = lead :: tail ∧
      readChar lead (tail ++ rest) = (c, tail.length) := by
  have hvalid : c.toNat < 0xD800 ∨ 0xDFFF < c.toNat ∧ c.toNat < 0x110000 := c.valid
  have hc : Char.ofNat c.toNat = c := Char.ofNat_toNat c
  rw [String.utf8EncodeChar, show c.val.toNat = c.toNat from rfl]
  generalize c.toNat = v at hvalid hc
  subst hc
  -- One case for each number of bytes.
  split
  · next hv =>
    have hb : (UInt8.ofNat v).toNat = v := by
      rw [UInt8.toNat_ofNat']
      omega
    have hascii : UInt8.ofNat v < 0x80 := by
      rw [UInt8.lt_iff_toNat_lt, hb]
      show v < 128
      omega
    have hread := readChar_ascii hascii ([] ++ rest)
    rw [hb] at hread
    exact ⟨_, _, rfl, hread⟩
  split
  · exact ⟨_, _, rfl, readChar_two rest (by omega) (by omega)⟩
  split
  · exact ⟨_, _, rfl, readChar_three rest (by omega) (by omega) (by omega)⟩
  · exact ⟨_, _, rfl, readChar_four rest (by omega) (by omega)⟩

/-- The bytes of some characters are read as those characters, and what
follows them is read as if it stood alone. -/
theorem decodeChars_append (chars : List Char) (rest : List UInt8) :
    decodeChars (encodeChars chars ++ rest) = chars ++ decodeChars rest := by
  induction chars with
  | nil => rfl
  | cons c chars ih =>
    obtain ⟨lead, tail, hc, hread⟩ := readChar_encodeChar c (encodeChars chars ++ rest)
    rw [encodeChars_cons, hc, List.append_assoc, List.cons_append, decodeChars_cons, hread,
      List.drop_left, ih, List.cons_append]

/-- The bytes of some characters are read as those characters. Nothing is
replaced in well-formed text. -/
@[simp] theorem decodeChars_encodeChars (chars : List Char) :
    decodeChars (encodeChars chars) = chars := by
  have h := decodeChars_append chars []
  rwa [List.append_nil, decodeChars_nil, List.append_nil] at h

/-- The bytes of a text are read as that text, so nothing is replaced in
them. -/
theorem decode_encode (text : String) : decode (encode text) = text := by
  rw [decode, encode_eq, decodeChars_encodeChars, String.ofList_toList]

/-! ### Where bytes that spell characters can be cut -/

/-- Some bytes are well-formed UTF-8: they are the bytes of some
characters. -/
def IsText (bytes : List UInt8) : Prop := ∃ chars, bytes = encodeChars chars

/-- The bytes of a character are one ASCII byte, or none of them is ASCII.
So an ASCII byte is never part of a longer character. -/
theorem encodeChar_cases (c : Char) :
    (∃ b < 0x80, c = Char.ofNat b.toNat ∧ String.utf8EncodeChar c = [b]) ∨
      (0x80 ≤ c.toNat ∧ ∀ b ∈ String.utf8EncodeChar c, ¬ b < 0x80) := by
  have hhigh : ∀ k, 128 ≤ k → k < 256 → ¬ UInt8.ofNat k < 0x80 := by
    intro k hlow hlt
    rw [UInt8.lt_iff_toNat_lt, UInt8.toNat_ofNat']
    show ¬ k % 256 < 128
    omega
  have hc : Char.ofNat c.toNat = c := Char.ofNat_toNat c
  rw [String.utf8EncodeChar, show c.val.toNat = c.toNat from rfl]
  -- The four lengths of an encoding, by the size of the character.
  generalize c.toNat = v at hc ⊢
  subst hc
  split
  · next hv =>
    have hb : (UInt8.ofNat v).toNat = v := by
      rw [UInt8.toNat_ofNat']
      omega
    refine Or.inl ⟨UInt8.ofNat v, ?_, by rw [hb], rfl⟩
    rw [UInt8.lt_iff_toNat_lt, hb]
    show v < 128
    omega
  · refine Or.inr ⟨by omega, ?_⟩
    split
    · simp only [List.forall_mem_cons]
      exact ⟨hhigh _ (by omega) (by omega), hhigh _ (by omega) (by omega), nofun⟩
    split
    · simp only [List.forall_mem_cons]
      exact ⟨hhigh _ (by omega) (by omega), hhigh _ (by omega) (by omega),
        hhigh _ (by omega) (by omega), nofun⟩
    · simp only [List.forall_mem_cons]
      exact ⟨hhigh _ (by omega) (by omega), hhigh _ (by omega) (by omega),
        hhigh _ (by omega) (by omega), hhigh _ (by omega) (by omega), nofun⟩

namespace IsText
variable {xs ys : List UInt8} {b : UInt8}

/-- No bytes at all are the bytes of no characters. -/
theorem nil : IsText [] := ⟨[], rfl⟩

/-- The bytes of a text spell characters, namely those of the text. -/
theorem of_encode (text : String) : IsText (encode text) := ⟨text.toList, encode_eq text⟩

/-- Two parts that spell characters spell characters together. -/
theorem append (hxs : IsText xs) (hys : IsText ys) : IsText (xs ++ ys) := by
  obtain ⟨chars, rfl⟩ := hxs
  obtain ⟨more, rfl⟩ := hys
  exact ⟨chars ++ more, (encodeChars_append ..).symm⟩

/-- ASCII bytes spell characters, one each. -/
theorem of_ascii (h : ∀ b ∈ xs, b < 0x80) : IsText xs :=
  ⟨(decode xs).toList, (encode_decode h).symm.trans (encode_eq _)⟩

/-- Bytes that spell characters are read as text and written back
unchanged. -/
theorem encode_decode (h : IsText xs) : encode (decode xs) = xs := by
  obtain ⟨chars, rfl⟩ := h
  rw [decode, decodeChars_encodeChars, encode_eq, String.toList_ofList]

/-- Bytes that spell characters can be cut at an ASCII byte: what stands
before it spells characters, and so does what stands behind it. -/
theorem of_append_cons (h : IsText (xs ++ b :: ys)) (hb : b < 0x80) : IsText xs ∧ IsText ys := by
  obtain ⟨chars, h⟩ := h
  -- The byte is one of the first character's or stands behind that.
  induction chars generalizing xs with
  | nil => simp at h
  | cons c chars ih =>
    rw [encodeChars_cons] at h
    have hc : IsText (String.utf8EncodeChar c) := ⟨[c], by simp [encodeChars_cons]⟩
    rcases List.append_eq_append_iff.mp h with ⟨bs, hbs, hrest⟩ | ⟨as, rfl, hrest⟩
    · cases bs with
      | nil =>
        -- The byte begins the next character.
        have hnext : [] ++ b :: ys = encodeChars chars := hrest
        obtain ⟨-, hys⟩ := ih hnext
        rw [List.append_nil] at hbs
        exact ⟨hbs ▸ hc, hys⟩
      | cons a bs =>
        -- The byte is one of this character, which is that byte alone.
        obtain ⟨rfl, rfl⟩ := List.cons.inj hrest
        rcases encodeChar_cases c with ⟨d, -, -, hd⟩ | ⟨-, hhigh⟩
        · rw [hd] at hbs
          cases xs with
          | nil =>
            obtain ⟨-, rfl⟩ := List.cons.inj hbs
            exact ⟨.nil, ⟨chars, rfl⟩⟩
          | cons x xs => simp at hbs
        · exact absurd hb (hhigh b (by simp [hbs]))
    · obtain ⟨has, hys⟩ := ih hrest.symm
      exact ⟨hc.append has, hys⟩

/-- Bytes that spell characters do not begin in the middle of a
character. -/
theorem isTail_head (h : IsText (b :: ys)) : isTail b = false := by
  obtain ⟨chars, h⟩ := h
  cases chars with
  | nil => cases h
  | cons c chars =>
    have hnone : ∀ b : UInt8, isTail b = true → tailCount? b = none :=
      forall_byte (by decide +kernel)
    obtain ⟨lead, tail, hc, hread⟩ := readChar_encodeChar c []
    rw [encodeChars_cons, hc, List.cons_append] at h
    obtain ⟨rfl, -⟩ := List.cons.inj h
    by_contra htail
    -- Such a byte alone would be read as U+FFFD, which has three bytes.
    rw [readChar, hnone b (Bool.not_eq_false _ ▸ htail)] at hread
    obtain ⟨rfl, hlength⟩ := Prod.mk.inj hread
    have hthree : (String.utf8EncodeChar replacement).length = 3 := by decide
    rw [hc, List.length_cons, ← hlength] at hthree
    cases hthree

/-- Bytes that spell characters and begin with an ASCII byte spell
characters behind it. -/
theorem of_cons (h : IsText (b :: ys)) (hb : b < 0x80) : IsText ys := by
  have hfront : IsText ([] ++ b :: ys) := h
  exact (of_append_cons hfront hb).2

/-- Bytes that spell characters and begin with some ASCII bytes spell
characters behind all of these. -/
theorem of_ascii_append (h : IsText (xs ++ ys)) (hxs : ∀ b ∈ xs, b < 0x80) : IsText ys := by
  induction xs with
  | nil => exact h
  | cons b xs ih =>
    obtain ⟨hb, hxs⟩ := List.forall_mem_cons.mp hxs
    exact ih (of_cons h hb) hxs

/-- Bytes that spell characters can be cut where the second part begins
with an ASCII byte or is empty. -/
theorem of_append_head (h : IsText (xs ++ ys)) (hys : ∀ b ∈ ys.head?, b < 0x80) :
    IsText xs ∧ IsText ys := by
  cases ys with
  | nil => exact ⟨List.append_nil xs ▸ h, .nil⟩
  | cons b ys =>
    have hb := hys b rfl
    obtain ⟨hxs, hys⟩ := of_append_cons h hb
    have hascii : IsText [b] := of_ascii (List.forall_mem_singleton.mpr hb)
    exact ⟨hxs, hascii.append hys⟩

/-- A cut of a text's bytes into two parts that both spell characters is
at a valid position of the text. Valid positions are those of the core
library. -/
theorem isValid {line : String} (h : encode line = xs ++ ys) (hxs : IsText xs) (hys : IsText ys) :
    (String.Pos.Raw.mk xs.length).IsValid line := by
  refine String.Pos.Raw.isValid_iff_exists_append.mpr ⟨decode xs, decode ys, ?_, ?_⟩
  · obtain ⟨chars, rfl⟩ := hxs
    obtain ⟨more, rfl⟩ := hys
    rw [← decode_encode line, h, ← encodeChars_append, decode, decode, decode,
      decodeChars_encodeChars, decodeChars_encodeChars, decodeChars_encodeChars,
      String.ofList_append]
  · have hlength := congrArg List.length hxs.encode_decode
    rw [← hlength]
    rfl

end IsText

/-- The bytes of a text before the first NUL spell its characters before
the first NUL. -/
theorem takeWhile_encodeChars (chars : List Char) :
    (encodeChars chars).takeWhile (· != 0) = encodeChars (chars.takeWhile (· != '\x00')) := by
  induction chars with
  | nil => rfl
  | cons c chars ih =>
    rw [encodeChars_cons, List.takeWhile_cons]
    by_cases hc : c = '\x00'
    · subst hc
      rfl
    · -- Only NUL itself has a byte that is zero.
      have hbytes : ∀ b ∈ String.utf8EncodeChar c, (b != 0) = true := by
        intro b hb
        rw [bne_iff_ne]
        rintro rfl
        rcases encodeChar_cases c with ⟨d, -, rfl, hd⟩ | ⟨-, hhigh⟩
        · rw [hd, List.mem_singleton] at hb
          exact hc (hb ▸ rfl)
        · exact hhigh 0 hb (by decide)
      rw [List.takeWhile_append_of_pos hbytes, ih, if_pos (bne_iff_ne.mpr hc), encodeChars_cons]

/-! ### Letters in capitals -/

/-- A character that is not ASCII is its own capital. Upper-casing is for
ASCII letters only. -/
theorem toUpper_of_high {c : Char} (h : 0x80 ≤ c.toNat) : c.toUpper = c := by
  unfold Char.toUpper
  rw [dif_neg]
  rintro ⟨-, hz⟩
  have hle : c.toNat ≤ 'z'.toNat := hz
  have hlast : 'z'.toNat = 122 := rfl
  omega

/-- Upper-casing the bytes of a character gives the bytes of its
capital. -/
theorem map_toUpper_encodeChar (c : Char) :
    (String.utf8EncodeChar c).map toUpper = String.utf8EncodeChar c.toUpper := by
  rcases encodeChar_cases c with ⟨b, hb, rfl, henc⟩ | ⟨hc, hhigh⟩
  · have hascii : ∀ b : UInt8, b < 0x80 →
        [toUpper b] = String.utf8EncodeChar (Char.ofNat b.toNat).toUpper :=
      forall_byte (by decide +kernel)
    rw [henc]
    exact hascii b hb
  · have hsame : ∀ b : UInt8, ¬ b < 0x80 → toUpper b = b := forall_byte (by decide +kernel)
    rw [toUpper_of_high hc, List.map_congr_left fun b hb => hsame b (hhigh b hb), List.map_id']

/-- No character but U+FFFD has U+FFFD as its capital, so upper-casing
does not change how often it stands in a text. -/
theorem toUpper_eq_replacement_iff (c : Char) : c.toUpper = replacement ↔ c = replacement := by
  rcases encodeChar_cases c with ⟨b, hb, rfl, -⟩ | ⟨hc, -⟩
  · have hascii : ∀ b : UInt8, b < 0x80 →
        (Char.ofNat b.toNat).toUpper ≠ replacement ∧ Char.ofNat b.toNat ≠ replacement :=
      forall_byte (by decide +kernel)
    exact iff_of_false (hascii b hb).1 (hascii b hb).2
  · rw [toUpper_of_high hc]

/-- Characters with their letters in capitals if `fold` is set. -/
def foldedChars (fold : Bool) (chars : List Char) : List Char :=
  if fold then chars.map Char.toUpper else chars

/-- Folding the bytes of some characters folds the characters. Only ASCII
letters change, and they are bytes of their own. -/
theorem folded_encodeChars (fold : Bool) (chars : List Char) :
    folded fold (encodeChars chars) = encodeChars (foldedChars fold chars) := by
  cases fold with
  | false => rfl
  | true =>
    show (encodeChars chars).map toUpper = encodeChars (chars.map Char.toUpper)
    induction chars with
    | nil => rfl
    | cons c chars ih =>
      rw [List.map_cons, encodeChars_cons, encodeChars_cons, List.map_append, ih,
        map_toUpper_encodeChar]

/-- Bytes that spell characters do so after folding. -/
theorem IsText.folded {bytes : List UInt8} (h : IsText bytes) (fold : Bool) :
    IsText (folded fold bytes) := by
  obtain ⟨chars, rfl⟩ := h
  exact ⟨foldedChars fold chars, folded_encodeChars fold chars⟩

/-! ### Replacements -/

/-- How often U+FFFD stands in a text. -/
def replacements (text : String) : Nat := text.toList.count replacement

/-- U+FFFD stands in two texts together as often as in both of them
apart. -/
theorem replacements_append (text other : String) :
    replacements (text ++ other) = replacements text + replacements other := by
  rw [replacements, String.toList_append, List.count_append]
  rfl

/-- U+FFFD does not stand in the empty text. -/
@[simp] theorem replacements_nil : replacements (decode []) = 0 := by
  simp [replacements, decode]

/-- An ASCII byte in front of others adds no U+FFFD to their text. -/
theorem replacements_cons {b : UInt8} (hb : b < 0x80) (bytes : List UInt8) :
    replacements (decode (b :: bytes)) = replacements (decode bytes) := by
  have hascii : ∀ b : UInt8, b < 0x80 → Char.ofNat b.toNat ≠ replacement :=
    forall_byte (by decide +kernel)
  rw [replacements, replacements, decode, decode, String.toList_ofList, String.toList_ofList,
    decodeChars_ascii hb, List.count_cons_of_ne (hascii b hb)]

/-- U+FFFD does not stand in the text of ASCII bytes. -/
theorem replacements_of_ascii {bytes : List UInt8} (h : ∀ b ∈ bytes, b < 0x80) :
    replacements (decode bytes) = 0 := by
  induction bytes with
  | nil => exact replacements_nil
  | cons b bytes ih =>
    obtain ⟨hb, hbytes⟩ := List.forall_mem_cons.mp h
    rw [replacements_cons hb, ih hbytes]

section Replacements
variable {xs : List UInt8} (h : IsText xs)
include h

/-- What follows bytes that spell characters is read as if it stood
alone. -/
theorem decode_append (ys : List UInt8) : decode (xs ++ ys) = decode xs ++ decode ys := by
  obtain ⟨chars, rfl⟩ := h
  rw [decode, decode, decode, decodeChars_append, decodeChars_encodeChars, String.ofList_append]

/-- Folding brings no U+FFFD into the text of bytes that spell characters,
and takes none away. -/
theorem replacements_folded (fold : Bool) :
    replacements (decode (Ascii.folded fold xs)) = replacements (decode xs) := by
  obtain ⟨chars, rfl⟩ := h
  rw [folded_encodeChars, replacements, replacements, decode, decode, String.toList_ofList,
    String.toList_ofList, decodeChars_encodeChars, decodeChars_encodeChars]
  cases fold with
  | false => rfl
  | true =>
    show (chars.map Char.toUpper).count replacement = chars.count replacement
    induction chars with
    | nil => rfl
    | cons c chars ih => simp [List.count_cons, ih, toUpper_eq_replacement_iff]

end Replacements

end LineLexer.Utf8
