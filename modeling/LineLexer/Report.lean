import LineLexer.Json
import LineLexer.Tokens

/-!
# `LineLexer.Report`: tokens as rows of text and as JSON

A report on some input goes through its lines. It shows the tokens and
the diagnostics of each in one of three formats: as rows of text with
a count of the tokens at the end, as one indented JSON list, or as one
row of JSON for each line.

* `splitLines`: the lines of some input.
* `Record`: what is reported about one line.
* `report`: the whole report in a format.
* `operatorTable`: the table of operators.
-/

set_option autoImplicit false

namespace LineLexer

/-! ### JSON values -/

/-- A span as a JSON record of two numbers, its start and its end. -/
def Span.toJson (span : Span) : Json :=
  .record [("start", .int span.start), ("end", .int span.stop)]

/-- The flags as one text: the names of those that are set, with bars
between them. -/
def Flags.toJson (flags : Flags) : Json :=
  .text (" | ".intercalate flags.names)

/-- A token as a JSON record with nine fields. What has no value is
null. -/
def Token.toJson (token : Token) : Json :=
  .record [
    ("text", .text token.text),
    ("raw_text", .text token.rawText),
    ("span", token.span.toJson),
    ("class", .text token.byteClass.name),
    ("delimiter", .int token.delimiter.toNat),
    ("delimiter_class", .text token.delimiterClass.name),
    ("int_value", .int token.intValue),
    ("real_value", (token.realValue.map Json.real).getD .null),
    ("flags", token.flags.toJson)]

/-- A diagnostic as a JSON record: its severity, its span and its text. -/
def Diagnostic.toJson (d : Diagnostic) : Json :=
  .record [("severity", .text d.severity.name), ("span", d.span.toJson), ("text", .text d.text)]

/-! ### Lines -/

/-- The bytes before the first newline and those after it, or nothing
if there is no newline. -/
def splitAtNewline : List UInt8 → Option (List UInt8 × List UInt8)
  | [] => none
  | b :: rest =>
    if b = 0x0A then some ([], rest)
    else (splitAtNewline rest).map fun (before, after) => (b :: before, after)

/-- What follows a newline is shorter than the whole, so cutting at
newlines comes to an end. -/
theorem length_lt_of_splitAtNewline {bytes before after : List UInt8}
    (h : splitAtNewline bytes = some (before, after)) : after.length < bytes.length := by
  induction bytes generalizing before with
  | nil => cases h
  | cons b rest ih =>
    unfold splitAtNewline at h
    split at h
    · cases h
      simp
    · obtain ⟨⟨inner, tail⟩, hsplit, heq⟩ := Option.map_eq_some_iff.mp h
      cases heq
      have := ih hsplit
      simp only [List.length_cons]
      omega

/-- The stretches between newlines. The stretch after the last newline
counts only if there is something in it. -/
def segments (bytes : List UInt8) : List (List UInt8) :=
  match _h : splitAtNewline bytes with
  | some (before, after) => before :: segments after
  | none => if bytes.isEmpty then [] else [bytes]
termination_by bytes.length
decreasing_by exact length_lt_of_splitAtNewline _h

/-- The bytes without one carriage return at their end. A second one
stays. -/
def dropReturn (bytes : List UInt8) : List UInt8 :=
  if bytes.getLast? = some 0x0D then bytes.dropLast else bytes

/-- The lines of some input, without their line endings. There is none for
an empty end of the input. -/
def splitLines (input : List UInt8) : List (List UInt8) :=
  (segments input).map dropReturn

/-! ### Records -/

/-- What is reported about one line: its number, counted from one, and
what was found there. -/
structure Record where
  number : Nat
  tokens : List Token
  diagnostics : List Diagnostic
  deriving DecidableEq, Repr

namespace Record

/-- The record of a line: its number, and all tokens and diagnostics that
a reader of the line finds. -/
def ofLine (settings : Settings) (number : Nat) (bytes : List UInt8) : Record :=
  let (tokens, diagnostics) := scanLine bytes settings
  { number, tokens, diagnostics }

/-- The record as JSON: the number of the line, its tokens and its
diagnostics. -/
def toJson (record : Record) : Json :=
  .record [
    ("line", .int record.number),
    ("tokens", .list (record.tokens.map Token.toJson)),
    ("diagnostics", .list (record.diagnostics.map Diagnostic.toJson))]

end Record

/-- The records of some input, one for each of its lines. The lines are
counted from one. -/
def records (settings : Settings) (input : List UInt8) : List Record :=
  (splitLines input).mapIdx fun index bytes => Record.ofLine settings (index + 1) bytes

/-! ### Rows of text -/

/-- The text with spaces behind it, so that it has `width` characters
if it was shorter. -/
def padded (width : Nat) (text : String) : String :=
  text ++ String.ofList (List.replicate (width - text.length) ' ')

/-- The row of a token: its line, its columns counted from one, its
class, its lexeme and its value. -/
def Token.row (number : Nat) (token : Token) : String :=
  let first := token.span.start + 1
  let last := token.span.stop
  s!"{number}:{first}-{last}: " ++ padded 9 token.byteClass.name ++ " "
    ++ padded 12 token.display ++ " " ++ toString token.intValue

/-- The row of a diagnostic: the number of its line, and the diagnostic as
it is shown. -/
def Diagnostic.row (number : Nat) (d : Diagnostic) : String :=
  s!"{number}:" ++ d.display

/-- The rows of a record: those of its tokens, then those of its
diagnostics. -/
def Record.rows (record : Record) : List String :=
  record.tokens.map (Token.row record.number)
    ++ record.diagnostics.map (Diagnostic.row record.number)

/-- How many tokens there are of each class. Classes of which there is
none are left out. -/
def classCounts (tokens : List Token) : List (ByteClass × Nat) :=
  (ByteClass.all.map fun c => (c, tokens.countP fun token => token.byteClass == c)).filter
    fun (_, count) => 0 < count

/-- The row that counts the tokens by their classes. There is no such row
without tokens. -/
def summaryRow (tokens : List Token) : List String :=
  match classCounts tokens with
  -- Without tokens there is no such row.
  | [] => []
  | counts =>
    let parts := counts.map fun (c, count) => toString count ++ " " ++ c.name
    ["tokens: " ++ ", ".intercalate parts]

/-! ### Reports -/

/-- The forms of a report: rows of text, one list of JSON, or one row of
JSON for each line. -/
inductive Format where
  /-- Rows of text, with a count of the tokens at the end. -/
  | text
  /-- One indented JSON list, with an item for each line. -/
  | json
  /-- One row of JSON for each line. -/
  | ndjson
  deriving DecidableEq, Repr

namespace Format

/-- The name of a format on the command line. -/
def name : Format → String
  | text => "text"
  | json => "json"
  | ndjson => "ndjson"

/-- All formats, in the order in which the command line lists them. -/
def all : List Format := [text, json, ndjson]

end Format

/-- Each row with a newline behind it. -/
def unlines (rows : List String) : String :=
  String.join (rows.map (· ++ "\n"))

/-- The rows of a report in text format: those of all records, and the row
that counts the tokens. -/
def textRows (records : List Record) : List String :=
  records.flatMap Record.rows ++ summaryRow (records.flatMap Record.tokens)

/-- The report on some input in a format. All three formats are made from
the same records. -/
def report (format : Format) (settings : Settings) (input : List UInt8) : String :=
  let found := records settings input
  match format with
  | .text => unlines (textRows found)
  | .json => unlines [(Json.list (found.map fun record => record.toJson.sorted)).pretty]
  | .ndjson => unlines (found.map fun record => record.toJson.compact)

/-! ### The table of operators -/

/-- The row of an operator: its code, its name and its spelling. -/
def Operator.row (op : Operator) : String :=
  let code := toString op.code
  String.ofList (List.replicate (2 - code.length) ' ') ++ code ++ "  " ++ op.name ++ "  "
    ++ op.spelling

/-- The operators with their codes, as rows of text or as a JSON list
of pairs. -/
def operatorTable (json : Bool) : String :=
  if json then
    unlines [(Json.list (Operator.all.map fun op =>
      .list [.text op.spelling, .int op.code])).pretty]
  else unlines (Operator.all.map Operator.row)

end LineLexer
