import LineLexer.Proofs.Taken
import LineLexer.Text.Utf8

/-!
# `LineLexer.Proofs.NumeralText`: the text of a number

The text of a number is made of ASCII bytes, so reading it as text and
writing it back changes nothing. The sign of the number is no part of
it: a sign in the text belongs to an exponent and stands behind its
marker.

* `encode_decode`: ASCII bytes are read and written back unchanged.
* `Numeral.Unsigned`: what the text of a number is like.
* `Unsigned.took`, `unsigned_run`: a byte more keeps it so, and any
  run of bytes.
-/

set_option autoImplicit false

namespace LineLexer

open Ascii

/-! ### ASCII bytes as text -/

namespace Utf8

/-- ASCII bytes are read as their characters, one each. -/
theorem decodeChars_of_ascii {bytes : List UInt8} (h : ∀ b ∈ bytes, b < 0x80) :
    decodeChars bytes = bytes.map fun b => Char.ofNat b.toNat := by
  induction bytes with
  | nil => exact decodeChars_nil
  | cons b rest ih =>
    rw [decodeChars_ascii (h b List.mem_cons_self), List.map_cons,
      ih fun c hc => h c (List.mem_cons_of_mem _ hc)]

/-- The UTF-8 bytes of a text that is given by its characters are those of
each character. -/
theorem encode_ofList (chars : List Char) :
    encode (String.ofList chars) = chars.flatMap String.utf8EncodeChar := by
  simp [encode, String.toUTF8, List.utf8Encode]

/-- An ASCII character is written as its byte. -/
theorem utf8EncodeChar_ascii {b : UInt8} (h : b < 0x80) :
    String.utf8EncodeChar (Char.ofNat b.toNat) = [b] := by
  revert b
  apply forall_byte
  decide +kernel

/-- ASCII bytes are read as text and written back unchanged, so the length
of such a text is the number of its bytes. -/
theorem encode_decode {bytes : List UInt8} (h : ∀ b ∈ bytes, b < 0x80) :
    encode (decode bytes) = bytes := by
  rw [decode, decodeChars_of_ascii h, encode_ofList]
  induction bytes with
  | nil => rfl
  | cons b rest ih =>
    rw [List.map_cons, List.flatMap_cons, utf8EncodeChar_ascii (h b List.mem_cons_self),
      ih fun c hc => h c (List.mem_cons_of_mem _ hc), List.singleton_append]

end Utf8

/-- Folding keeps ASCII bytes ASCII. -/
theorem folded_ascii (fold : Bool) {bytes : List UInt8} (h : ∀ b ∈ bytes, b < 0x80) :
    ∀ b ∈ folded fold bytes, b < 0x80 := by
  have hupper : ∀ b : UInt8, b < 0x80 → toUpper b < 0x80 := forall_byte (by decide +kernel)
  cases fold with
  | false => exact h
  | true =>
    intro b hb
    obtain ⟨c, hc, rfl⟩ := List.mem_map.mp hb
    exact hupper c (h c hc)

namespace Numeral

/-- The text of a number is made of ASCII bytes, and no sign stands in
front of it, markers of hexadecimal numbers apart. -/
structure Unsigned (n : Numeral) : Prop where
  ascii : ∀ b ∈ n.text, b < 0x80
  head : ∀ b ∈ (unprefixed n.text).head?, isSign b = false

/-- A number of which only the sign has been read has no text. -/
theorem unsigned_signed (negative : Bool) : Unsigned (signed negative) where
  ascii _ h := nomatch h
  head _ h := nomatch h

/-- A number that ends in the marker of an exponent has a byte in its
text that is no marker of hexadecimal numbers. -/
theorem exists_of_endsInMarker {n : Numeral} (h : n.endsInMarker = true) :
    ∃ c ∈ n.text, isPrefixMarker c = false := by
  have hmarker : ∀ c : UInt8, isExponentMarker c = true → isPrefixMarker c = false :=
    forall_byte (by decide +kernel)
  rw [endsInMarker, Bool.and_eq_true] at h
  cases hlast : n.kept.head? with
  | none =>
    rw [hlast] at h
    cases h.2
  | some c =>
    rw [hlast, Option.any_some] at h
    exact ⟨c, List.mem_reverse.mpr (List.mem_of_head? hlast), hmarker c h.2⟩

/-- A byte that a number takes keeps its text unsigned. A sign is taken
only behind the marker of an exponent, which then stands in front of
it. -/
theorem Unsigned.took {reals : Bool} {n next : Numeral} {b : UInt8} {rest : List UInt8}
    (h : Unsigned n) (htook : Took reals n b rest next) : Unsigned next := by
  have htext := (text_of_took htook).1
  constructor
  · intro c hc
    rw [htext] at hc
    rcases List.mem_append.mp hc with hc | hc
    · exact h.ascii c hc
    · obtain rfl := List.mem_singleton.mp (List.mem_of_mem_filter hc)
      exact ascii_of_took htook
  · intro c hc
    rw [htext, unprefixed, List.filter_append, List.head?_append] at hc
    cases hfront : (unprefixed n.text).head? with
    | some d =>
      -- The first byte of the text is what it was.
      rw [unprefixed] at hfront
      rw [hfront] at hc
      cases hc
      exact h.head c hfront
    | none =>
      rw [unprefixed] at hfront
      rw [hfront, Option.none_or] at hc
      have hcb := List.mem_of_mem_filter (List.mem_of_mem_filter (List.mem_of_head? hc))
      obtain rfl := List.mem_singleton.mp hcb
      by_contra hsign
      rw [Bool.not_eq_false] at hsign
      -- Behind the marker of an exponent the text is not empty.
      obtain ⟨d, hd, hplain⟩ := exists_of_endsInMarker (endsInMarker_of_sign htook hsign)
      rw [List.head?_eq_none_iff, List.filter_eq_nil_iff] at hfront
      exact hfront d hd (by simp [hplain])

/-- A run keeps the text of a number unsigned, whatever the class
table. -/
theorem unsigned_run {n : Numeral} (h : Unsigned n) (classes : ClassTable) (reals : Bool)
    (bytes : List UInt8) : Unsigned (n.run classes reals bytes).1 :=
  run_invariant classes reals (fun hn htook => hn.took htook) h bytes

/-- A number that begins with a byte of class digit begins with an
unsigned text. -/
theorem unsigned_start (b : UInt8) : Unsigned (start b) := by
  unfold start
  split
  · exact unsigned_signed true
  · cases hnext : (signed false).nextDigit? b with
    | none => exact unsigned_signed false
    | some next =>
      have htook : Took false (signed false) b [] next := took_of_nextDigit? hnext
      exact (unsigned_signed false).took htook

/-- A number that begins with a sign begins with an unsigned text, as the
sign is kept apart. -/
theorem unsigned_startSigned (sign b : UInt8) : Unsigned (startSigned sign b) := by
  unfold startSigned
  dsimp only
  cases hnext : (signed (sign == '-'.toUInt8)).nextDigit? b with
  | none => exact unsigned_signed _
  | some next =>
    have htook : Took false _ b [] next := took_of_nextDigit? hnext
    exact (unsigned_signed _).took htook

end Numeral

end LineLexer
