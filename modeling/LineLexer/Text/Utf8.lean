import LineLexer.Text.Ascii

/-!
# `LineLexer.Text.Utf8`: bytes read as text

Lines are bytes, tokens are text. Reading never fails: wherever the
bytes stop being well-formed UTF-8, the longest stretch that could
still have begun a character becomes one replacement character
U+FFFD, and reading goes on behind it.

* `decodeChars`: the characters of a list of bytes.
* `decode`: the string of the characters that some bytes are read as.
* `byteSum`: the sum of a string's UTF-8 bytes, a cheap comparison
  key for words.
* `decodeChars_ascii`, `decode_ascii`: an ASCII byte is read as its
  character, and what follows is read as if it stood alone.
-/

set_option autoImplicit false

namespace LineLexer.Utf8

/-- What stands in the text for bytes that encode no character. -/
def replacement : Char := '\uFFFD'

/-- How many bytes follow `lead` in a character that it starts, or
`none` when it starts no character. -/
def tailCount? (lead : UInt8) : Option Nat :=
  if lead < 0x80 then some 0
  else if 0xC2 ≤ lead && lead ≤ 0xDF then some 1
  else if 0xE0 ≤ lead && lead ≤ 0xEF then some 2
  else if 0xF0 ≤ lead && lead ≤ 0xF4 then some 3
  else none

/-- Whether a byte may stand after the first two of a character. -/
def isTail (b : UInt8) : Bool :=
  0x80 ≤ b && b ≤ 0xBF

/-- Whether a byte may stand second, after `lead`. The narrower ranges
keep out overlong forms, surrogates and values past U+10FFFF. -/
def isSecond (lead b : UInt8) : Bool :=
  if lead == 0xE0 then 0xA0 ≤ b && b ≤ 0xBF
  else if lead == 0xED then 0x80 ≤ b && b ≤ 0x9F
  else if lead == 0xF0 then 0x90 ≤ b && b ≤ 0xBF
  else if lead == 0xF4 then 0x80 ≤ b && b ≤ 0x8F
  else isTail b

/-- The bytes at the front of `rest` that can continue a character
that `lead` starts and that has `count` bytes after it. -/
def tails (lead : UInt8) (count : Nat) (rest : List UInt8) : List UInt8 :=
  match rest.take count with
  | [] => []
  | b :: more => if isSecond lead b then b :: more.takeWhile isTail else []

/-- The bits that `lead` gives to its character's code point. -/
def leadBits (lead : UInt8) (count : Nat) : Nat :=
  match count with
  | 0 => lead.toNat
  | 1 => lead.toNat % 32
  | 2 => lead.toNat % 16
  | _ => lead.toNat % 8

/-- The code point that a lead byte and its tails spell. -/
def codePoint (lead : UInt8) (tails : List UInt8) : Nat :=
  tails.foldl (fun point b => point * 64 + b.toNat % 64)
    (leadBits lead tails.length)

/-- The character at the front of the bytes `lead :: rest`, with the
number of bytes of `rest` that it takes up. -/
def readChar (lead : UInt8) (rest : List UInt8) : Char × Nat :=
  match tailCount? lead with
  | none => (replacement, 0)
  | some count =>
    let found := tails lead count rest
    if found.length = count then (Char.ofNat (codePoint lead found), count)
    else (replacement, found.length)

/-- The characters that the bytes spell. A stretch that spells none gives
one replacement character. -/
def decodeChars : List UInt8 → List Char
  | [] => []
  | lead :: rest =>
    (readChar lead rest).1 :: decodeChars (rest.drop (readChar lead rest).2)
termination_by bytes => bytes.length
decreasing_by simp only [List.length_drop, List.length_cons]; omega

/-- The text that the bytes spell, as a string. Bytes that spell no
character are replaced by U+FFFD. -/
def decode (bytes : List UInt8) : String :=
  String.ofList (decodeChars bytes)

/-- The UTF-8 bytes of a text, in order. -/
def encode (text : String) : List UInt8 :=
  text.toUTF8.data.toList

/-- The sum of the UTF-8 bytes of a text. It is the integer value of a
word. -/
def byteSum (text : String) : Int :=
  (encode text).foldl (fun sum b => sum + b.toNat) 0

/-! ### Laws -/

@[simp] theorem decodeChars_nil : decodeChars [] = [] := by
  rw [decodeChars]

/-- The characters of some bytes are the one at the front, and those of
the bytes behind it. -/
theorem decodeChars_cons (lead : UInt8) (rest : List UInt8) :
    decodeChars (lead :: rest)
      = (readChar lead rest).1 :: decodeChars (rest.drop (readChar lead rest).2) := by
  rw [decodeChars]

/-- An ASCII byte is a character by itself, whatever follows. -/
theorem readChar_ascii {b : UInt8} (h : b < 0x80) (rest : List UInt8) :
    readChar b rest = (Char.ofNat b.toNat, 0) := by
  simp [readChar, tailCount?, h, tails, codePoint, leadBits]

/-- An ASCII byte is read as its character, and what follows is read
as if it stood alone. -/
theorem decodeChars_ascii {b : UInt8} (h : b < 0x80) (rest : List UInt8) :
    decodeChars (b :: rest) = Char.ofNat b.toNat :: decodeChars rest := by
  simp [decodeChars_cons, readChar_ascii h]

@[simp] theorem decode_nil : decode [] = "" := by
  rw [decode, decodeChars_nil, String.ofList_nil]

/-- An ASCII byte in front of others is read as its character, which
stands in front of their text. -/
theorem decode_ascii {b : UInt8} (h : b < 0x80) (rest : List UInt8) :
    decode (b :: rest) = String.singleton (Char.ofNat b.toNat) ++ decode rest := by
  rw [decode, decode, decodeChars_ascii h, String.ofList_cons]

end LineLexer.Utf8
