import LineLexer.Text.Quoted

/-!
# `LineLexer.Numeral.Fault`: why a numeral has no value

A numeral whose text has no value in range is read as zero, and a
warning says why. `NumeralFault.message` is the wording.
-/

set_option autoImplicit false

namespace LineLexer

/-- What can be wrong with the text of a numeral, so that it has no
value. -/
inductive NumeralFault.Kind where
  /-- The text is no number at all. -/
  | malformed
  /-- A hexadecimal number lies past the largest integer. -/
  | hexOutOfRange
  /-- The integer part of a decimal number is no 64-bit integer. -/
  | integerOutOfRange
  deriving DecidableEq, Repr

/-- A numeral without a value: what is wrong with it, and its text. The
diagnostic about it names the text. -/
structure NumeralFault where
  kind : NumeralFault.Kind
  text : String
  deriving DecidableEq, Repr

/-- The wording of a fault. It names the text, so that the reader finds
the numeral in the line. -/
def NumeralFault.message (fault : NumeralFault) : String :=
  let shown := Quoted.quoted fault.text
  match fault.kind with
  | .malformed => shown ++ " is not a valid number; using 0."
  | .hexOutOfRange => "Hexadecimal number " ++ shown ++ " is out of range; using 0."
  | .integerOutOfRange => "Integer part of " ++ shown ++ " is out of range; using 0."

end LineLexer
