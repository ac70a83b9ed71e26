import LineLexer.Report
import LineLexer.Text.Quoted

/-!
# `LineLexer.Invocation`: the arguments of the program

The first argument names what to do: `tokenize` reports on a file or
the standard input, `opcodes` prints the table of operators. The
options of `tokenize` can be given in long and short form, with their
value attached or as the next argument, until `--` ends the options.

An option or file is looked into when the argument after it has been
recognised, so an unknown argument is reported in preference to a bad
value just before it.

* `Invocation.parse`: what the arguments ask for, or why they are
  refused.
* `UsageError.message?`: the wording of a refusal, where it has one of
  its own.
-/

set_option autoImplicit false

namespace LineLexer

/-- Why arguments are refused. The program then reads nothing and ends
with code 2. -/
inductive UsageError where
  /-- There is no command, or no command of that name. -/
  | unknownCommand
  /-- An argument that is no option, or one too many. -/
  | unknownArgument (argument : String)
  /-- An option stands last, without its value. -/
  | missingValue
  /-- An option whose value is none of those it can have. -/
  | badValue (value : String)
  /-- An option that can be given once, given again. -/
  | repeated
  /-- A file without a name. -/
  | emptyFile
  /-- A delimiter that is not a single byte. -/
  | badDelimiter (value : String)
  deriving DecidableEq, Repr

/-- The wording of a refusal, if it has one of its own. Only a bad
delimiter has. -/
def UsageError.message? : UsageError → Option String
  | badDelimiter value =>
    some (Quoted.quoted value ++ ": delimiter must be a single byte")
  | _ => none

/-- What to tokenize, with which settings, and in which format to report
on it. -/
structure TokenizeRequest where
  /-- The file to read. Without one, the standard input is read. -/
  file : Option String
  settings : Settings
  format : Format
  deriving DecidableEq, Repr

/-- What the program is asked to do: to show its version, to print the
table of operators, or to report on an input. -/
inductive Invocation where
  | version
  | opcodes (json : Bool)
  | tokenize (request : TokenizeRequest)
  deriving DecidableEq, Repr

namespace Invocation

/-! ### The options of `tokenize` -/

/-- The options that are given with a value: the format of the report, the
mode, and the delimiters. -/
inductive ValueOption where
  | mode
  | delimiter
  | format
  deriving DecidableEq, Repr

/-- The option with a value of the given long name, if there is one. -/
def ValueOption.ofLong? (name : String) : Option ValueOption :=
  if name = "mode" then some mode
  else if name = "delimiter" then some delimiter
  else if name = "format" then some format
  else none

/-- The option with a value of the given letter, if there is one. -/
def ValueOption.ofShort? (letter : Char) : Option ValueOption :=
  if letter = 'm' then some mode
  else if letter = 'd' then some delimiter
  else if letter = 'f' then some format
  else none

/-- The arguments as far as they have been looked into. An option that can
be given once is missing or has its value. -/
structure Draft where
  mode : Option Mode
  format : Option Format
  /-- The delimiters, in the order given. -/
  delimiters : List UInt8
  preserveCase : Bool
  file : Option String
  deriving DecidableEq, Repr

/-- The draft before any argument has been looked into. -/
def Draft.empty : Draft :=
  { mode := none, format := none, delimiters := [], preserveCase := false, file := none }

/-- The request that complete arguments make. What has not been given is
as in the standard settings, and the report is text. -/
def Draft.request (draft : Draft) : TokenizeRequest :=
  { file := draft.file
    settings :=
      { fold := !draft.preserveCase
        pinned := draft.delimiters
        mode := draft.mode.getD Settings.standard.mode }
    format := draft.format.getD .text }

/-- The draft with an option and its value. The delimiter can be given
many times, the other options once. -/
def Draft.option (draft : Draft) (option : ValueOption) (value : String) :
    Except UsageError Draft :=
  match option with
  | .mode =>
    if draft.mode.isSome then .error .repeated
    else match Mode.all.find? fun mode => mode.name == value with
      | some mode => .ok { draft with mode := some mode }
      | none => .error (.badValue value)
  | .format =>
    if draft.format.isSome then .error .repeated
    else match Format.all.find? fun format => format.name == value with
      | some format => .ok { draft with format := some format }
      | none => .error (.badValue value)
  | .delimiter =>
    match Utf8.encode value with
    | [byte] => .ok { draft with delimiters := draft.delimiters ++ [byte] }
    | _ => .error (.badDelimiter value)

/-- What has been recognised and is looked into when the next argument has
been recognised too. -/
inductive Pending where
  | nothing
  /-- An option that waits for its value, which is the next argument. -/
  | awaiting (option : ValueOption)
  | option (option : ValueOption) (value : String)
  | file (path : String)
  deriving DecidableEq, Repr

/-- The draft with what is pending looked into. It is refused if an option
still waits for its value. -/
def Draft.settle (draft : Draft) : Pending → Except UsageError Draft
  | .nothing => .ok draft
  | .awaiting _ => .error .missingValue
  | .option option value => draft.option option value
  | .file path =>
    if path = "" then .error .emptyFile else .ok { draft with file := some path }

/-! ### One argument -/

/-- The forms that an argument can have, before anything is said about its
name or value. -/
inductive Argument where
  /-- The mark that ends the options. -/
  | escape
  /-- An option in long form, and the value after `=`. -/
  | long (name : String) (value : Option String)
  /-- An option letter, and what follows it. -/
  | short (letter : Char) (rest : List Char)
  /-- Any other argument. A lone `-` is one of them. -/
  | plain
  deriving DecidableEq, Repr

/-- The parts of an option in long form, before and after the first
`=`. -/
def splitAssignment (chars : List Char) : String × Option String :=
  let name := String.ofList (chars.takeWhile (· != '='))
  match chars.dropWhile (· != '=') with
  | [] => (name, none)
  | _ :: value => (name, some (String.ofList value))

/-- The form of an argument, as told from the characters it begins
with. -/
def Argument.ofString (argument : String) : Argument :=
  match argument.toList with
  | ['-', '-'] => .escape
  | '-' :: '-' :: chars =>
    let (name, value) := splitAssignment chars
    .long name value
  | '-' :: letter :: rest => .short letter rest
  | _ => .plain

/-- The value attached to an option letter. It is what follows the letter,
without an `=` in front. -/
def attachedValue? : List Char → Option String
  | [] => none
  | '=' :: value => some (String.ofList value)
  | value => some (String.ofList value)

/-! ### All arguments of `tokenize` -/

/-- An option and the value attached to it, if there is one: the draft
with what is pending and an attached value, and what is pending
then. -/
def Draft.begin (draft : Draft) (pending : Pending) (option : ValueOption)
    (attached : Option String) : Except UsageError (Draft × Pending) := do
  let settled ← draft.settle pending
  match attached with
  | some value => return (← settled.option option value, .nothing)
  | none => return (settled, .awaiting option)

/-- The draft with the flag that keeps the case of letters, after what was
pending has been looked into. -/
def Draft.keepCase (draft : Draft) (pending : Pending) :
    Except UsageError (Draft × Pending) := do
  let settled ← draft.settle pending
  if settled.preserveCase then .error .repeated
  else return ({ settled with preserveCase := true }, .nothing)

/-- The draft with an argument that is no option. The argument is the
value that an option waits for, or the file if there is none yet. -/
def Draft.plain (draft : Draft) (pending : Pending) (escaped : Bool) (argument : String) :
    Except UsageError (Draft × Pending) :=
  match pending, escaped with
  | .awaiting option, false => .ok (draft, .option option argument)
  -- A second file is refused before the first one is looked into.
  | .file _, _ => .error (.unknownArgument argument)
  | _, _ =>
    if draft.file.isSome then .error (.unknownArgument argument)
    else (draft.settle pending).map fun settled => (settled, .file argument)

/-- The draft with one more argument, and what is pending then. The mark
that ends the options is dealt with before. -/
def Draft.next (draft : Draft) (pending : Pending) (escaped : Bool) (argument : String) :
    Except UsageError (Draft × Pending) :=
  if escaped then draft.plain pending true argument
  else match Argument.ofString argument with
    | .long name value =>
      match ValueOption.ofLong? name with
      | some option => draft.begin pending option value
      | none =>
        if name = "preserve-case" ∧ value = none then draft.keepCase pending
        else .error (.unknownArgument argument)
    | .short letter rest =>
      match ValueOption.ofShort? letter with
      | some option => draft.begin pending option (attachedValue? rest)
      | none => .error (.unknownArgument argument)
    | .escape | .plain => draft.plain pending false argument

/-- The draft with all of the arguments, from the first to the last.
Behind the mark that ends the options every argument is a plain one. -/
def Draft.arguments (draft : Draft) (pending : Pending) (escaped : Bool) :
    List String → Except UsageError Draft
  | [] => draft.settle pending
  | argument :: rest =>
    if !escaped && Argument.ofString argument == .escape then
      draft.arguments pending true rest
    else
      match draft.next pending escaped argument with
      | .ok (later, pending) => later.arguments pending escaped rest
      | .error error => .error error

/-! ### The whole command line -/

/-- Whether the arguments of `opcodes` ask for JSON. There is one flag,
which can be given once. -/
def parseOpcodes : List String → Except UsageError Bool
  | [] | ["--"] => .ok false
  | ["--json"] | ["--json", "--"] => .ok true
  | "--json" :: "--json" :: _ => .error .repeated
  | "--json" :: argument :: _ => .error (.unknownArgument argument)
  | argument :: _ => .error (.unknownArgument argument)

/-- What the arguments ask for, or why they are refused. The first
argument is the command. -/
def parse : List String → Except UsageError Invocation
  | [] => .error .unknownCommand
  | command :: rest =>
    if command = "tokenize" then
      (Draft.empty.arguments .nothing false rest).map fun draft => .tokenize draft.request
    else if command = "opcodes" then (parseOpcodes rest).map .opcodes
    else
      match Argument.ofString command with
      | .long "version" none => .ok .version
      | .short 'V' _ => .ok .version
      | _ => .error .unknownCommand

end Invocation

end LineLexer
