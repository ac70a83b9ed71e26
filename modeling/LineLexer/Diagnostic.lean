import LineLexer.Span
import LineLexer.Numeral.Fault

/-!
# `LineLexer.Diagnostic`: what scanning reports beside its tokens

Scanning never fails. Where it has to guess, it goes on with the best
token it can make and reports a diagnostic: how serious the matter is,
which part of the line it concerns, and a text for the reader.
-/

set_option autoImplicit false

namespace LineLexer

/-- How serious a diagnostic is. Scanning always recovers, so all
diagnostics are warnings. -/
inductive Severity where
  | warning
  deriving DecidableEq, Repr

/-- The name under which a severity is reported. -/
def Severity.name : Severity → String
  | .warning => "warning"

/-- A remark about a part of a line: how serious it is, which bytes it is
about, and a text for the reader. -/
structure Diagnostic where
  severity : Severity
  span : Span
  text : String
  deriving DecidableEq, Repr

namespace Diagnostic

/-- A warning about a part of a line, with its text. -/
def warning (span : Span) (text : String) : Diagnostic := ⟨.warning, span, text⟩

/-- The warning about a numeral that has no value. It says what is wrong,
and gives the text of the numeral. -/
def ofFault (span : Span) (fault : NumeralFault) : Diagnostic :=
  warning span fault.message

/-- A diagnostic in one row: its columns, counted from one and both
included, its severity and its text. A single column is named once. -/
def display (d : Diagnostic) : String :=
  let first := d.span.start + 1
  let last := max d.span.stop first
  let columns := if first = last then toString first else s!"{first}-{last}"
  columns ++ ": " ++ d.severity.name ++ ": " ++ d.text

end Diagnostic

end LineLexer
