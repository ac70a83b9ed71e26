import LineLexer.Folder
import LineLexer.Invocation

/-!
# `LineLexer.Program`: from arguments to output

The program as a function: its arguments, its standard input and what
the files hold go in, its exit code and its output come out.

* `run`: the whole program.
* `code_of_run`: the exit code is 0, 1 for an input that cannot be
  read, or 2 for arguments that are refused.
-/

set_option autoImplicit false

namespace LineLexer

/-- How the program ends: its exit code, what it has printed, and what it
says about a failure. -/
structure Exit where
  code : Nat
  stdout : String
  /-- What is said about a failure, and nothing if there is none. -/
  message : Option String
  deriving DecidableEq, Repr

namespace Program

/-- The row with the name and the version of the program. -/
def versionRow : String := "linetok 0.1.0"

/-- The program ends well, with some output and code 0. -/
def success (stdout : String) : Exit := { code := 0, stdout, message := none }

/-- The program ends with code 1 because the input cannot be read. Nothing
is printed. -/
def failure (message : String) : Exit :=
  { code := 1, stdout := "", message := some ("Error: " ++ message ++ "\n") }

/-- The program ends with code 2 because its arguments are refused.
Nothing is printed. -/
def refusal (error : UsageError) : Exit :=
  { code := 2, stdout := "", message := error.message? }

/-- The report that a request asks for, if its input holds some bytes.
There is one for every input. -/
def answer (request : TokenizeRequest) (input : List UInt8) : Exit :=
  success (report request.format request.settings input)

/-- The report on a file, or why the file cannot be read. -/
def answerFile (request : TokenizeRequest) (path : String) : Opened → Exit
  | .file bytes => answer request bytes
  | .directory => failure directoryMessage
  | .failed message => failure (path ++ ": open failed\n\nCaused by:\n    " ++ message)

/-- What an invocation comes to, given the standard input and the
files by their paths. -/
def perform (stdin : List UInt8) (openPath : String → Opened) : Invocation → Exit
  | .version => success (versionRow ++ "\n")
  | .opcodes json => success (operatorTable json)
  | .tokenize request =>
    match request.file with
    | none => answer request stdin
    | some path => answerFile request path (openPath path)

/-- The whole program: the arguments are parsed, and what they ask for is
done. Nothing is read if they are refused. -/
def run (arguments : List String) (stdin : List UInt8) (openPath : String → Opened) : Exit :=
  match Invocation.parse arguments with
  | .ok invocation => perform stdin openPath invocation
  | .error error => refusal error

/-- The exit code is 2 exactly if the arguments are refused, and else 0 or
1. No run ends in any other way. -/
theorem code_of_run (arguments : List String) (stdin : List UInt8)
    (openPath : String → Opened) :
    let code := (run arguments stdin openPath).code
    code ≤ 2 ∧ (code = 2 ↔ ∃ error, Invocation.parse arguments = .error error) := by
  unfold run
  cases h : Invocation.parse arguments with
  | error error => simp [refusal]
  | ok invocation =>
    have hcode : (perform stdin openPath invocation).code ≤ 1 := by
      unfold perform
      split
      · simp [success]
      · simp [success]
      · split
        · simp [answer, success]
        · unfold answerFile
          split <;> simp [answer, success, failure]
    have hno : ¬ ∃ error, (Except.ok invocation : Except UsageError Invocation)
        = .error error := fun ⟨_, herror⟩ => by cases herror
    exact ⟨Nat.le_succ_of_le hcode,
      iff_of_false (Nat.ne_of_lt (Nat.lt_succ_of_le hcode)) hno⟩

end Program

end LineLexer
