import LineLexer.Binary64
import LineLexer.ByteClass
import LineLexer.Operator
import LineLexer.Span

/-!
# `LineLexer.Token`: one lexeme of a line

A token holds the text of a lexeme, the part of the line it was read
from, its class, the byte that ended it and its value.

* `Token.operator?`: the operator that an operator token stands for.
* `Token.display`: the token as a row of a report shows it.
-/

set_option autoImplicit false

namespace LineLexer

/-- What is known about a token beyond its class. Three flags are about
numbers, and one is about quotes. -/
structure Flags where
  /-- Whether a number has a point or an exponent. -/
  real : Bool
  /-- Whether a number has a hexadecimal marker. -/
  hex : Bool
  /-- Whether a number has a minus sign. -/
  negative : Bool
  /-- Whether the token stood in quotes. -/
  quoted : Bool
  deriving DecidableEq, Repr

namespace Flags

/-- No flag is set, as for every operator and every word outside
quotes. -/
def none : Flags := ⟨false, false, false, false⟩

instance : Inhabited Flags := ⟨none⟩

/-- The names of the flags that are set, always in the same order. -/
def names (flags : Flags) : List String :=
  [(flags.real, "REAL"), (flags.hex, "HEX"), (flags.negative, "NEGATIVE"),
    (flags.quoted, "QUOTED")].filterMap fun (isSet, name) => if isSet then some name else .none

end Flags

/-- A lexeme with all that the scanner found out about it: its text, its
place on the line, what ended it, and its values. -/
structure Token where
  /-- The lexeme without its sign, its quotes and the `h` markers. -/
  text : String
  /-- The bytes of the line that the token covers, as text. -/
  rawText : String
  /-- Where these bytes stand in the line. -/
  span : Span
  /-- The class of the lexeme. A signed number has class digit. -/
  byteClass : ByteClass
  /-- The byte after the token, or zero at the end of the line. -/
  delimiter : UInt8
  /-- The class of the byte after the token, or delimiter at the end of
  the line. -/
  delimiterClass : ByteClass
  /-- The value of a number, the code of an operator, or the sum of
  the bytes of any other text. -/
  intValue : Int
  /-- The value of a number that was scanned as a real one. -/
  realValue : Option Binary64
  flags : Flags
  deriving DecidableEq, Repr

namespace Token

/-- The operator that a token of class operator stands for. Its code is
the token's value. -/
def operator? (token : Token) : Option Operator :=
  if token.byteClass = .operator then Operator.ofCode? token.intValue else none

/-- The token as a report shows it: a number with its minus sign, a
quoted text in double quotes, anything else by its text. -/
def display (token : Token) : String :=
  match token.byteClass with
  | .digit => if token.flags.negative then "-" ++ token.text else token.text
  | .other => if token.flags.quoted then "\"" ++ token.text ++ "\"" else token.text
  | .delimiter | .operator => token.text

end Token

end LineLexer
