import LineLexer.Text.Printable

/-!
# `LineLexer.Text.Quoted`: a text shown between double quotes

Messages name the text they complain about in double quotes. Inside,
the quote and the backslash are escaped, a few control characters have
a letter of their own, and any other character that would not show is
written as its code point in braces.

* `quoted`: the quoted form of a text.
* `escapeChar_of_plain`: a printable character other than the quote
  and the backslash stands for itself.
-/

set_option autoImplicit false

namespace LineLexer.Quoted

/-- A code point as an escape: lower-case hexadecimal digits in
braces, without leading zeros. -/
def codePointEscape (c : Char) : List Char :=
  ['\\', 'u', '\x7b'] ++ Nat.toDigits 16 c.toNat ++ ['\x7d']

/-- How one character is written between the quotes: with a letter, as its
code point, or as itself. -/
def escapeChar (c : Char) : List Char :=
  if c = '\x00' then ['\\', '0']
  else if c = '\t' then ['\\', 't']
  else if c = '\n' then ['\\', 'n']
  else if c = '\r' then ['\\', 'r']
  else if c = '\x22' then ['\\', '\x22']
  else if c = '\\' then ['\\', '\\']
  else if Printable.isPrintable c then [c]
  else codePointEscape c

/-- The text in double quotes, with everything escaped that would not
show as itself. -/
def quoted (text : String) : String :=
  String.ofList ('\x22' :: text.toList.flatMap escapeChar ++ ['\x22'])

example : quoted "5\u0301\t" = "\"5\\u\x7b301\x7d\\t\"" := by decide +kernel

/-- A printable character other than the quote and the backslash
stands for itself. -/
theorem escapeChar_of_plain {c : Char} (hquote : c ≠ '\x22')
    (hslash : c ≠ '\\') (hplain : Printable.isPrintable c = true) :
    escapeChar c = [c] := by
  have hcontrol : ∀ d : Char, Printable.isPrintable d = false → c ≠ d := by
    intro d hd hcd
    rw [hcd, hd] at hplain
    cases hplain
  simp [escapeChar, hquote, hslash, hplain, hcontrol '\x00' rfl, hcontrol '\t' rfl,
    hcontrol '\n' rfl, hcontrol '\r' rfl]

end LineLexer.Quoted
