import LineLexer.Program

/-!
# `LineLexer.Main`: the program

Reads the arguments, and the standard input or the file that they
name, and leaves the rest to `LineLexer.Program`.
-/

set_option autoImplicit false

namespace LineLexer

/-- The operating system's wording for a path that was not opened. Faults
that the model does not know keep their own wording. -/
def openMessage : IO.Error → String
  | .noFileOrDirectory .. => OpenFault.notFound.message
  | .inappropriateType .. => OpenFault.notDirectory.message
  | .invalidArgument .. => OpenFault.nameTooLong.message
  | other => toString other

/-- What reading an open file to its end comes to: its bytes, or that it
is a directory, which cannot be read. -/
def readOpened (handle : IO.FS.Handle) : IO Opened := do
  try
    return .file (← handle.readBinToEnd).data.toList
  catch _ =>
    return .directory

/-- What opening a path and reading to its end comes to: the bytes, or the
reason why there are none. -/
def openFile (path : String) : IO Opened := do
  try
    readOpened (← IO.FS.Handle.mk path .read)
  catch error =>
    return .failed (openMessage error)

/-- All of the standard input, unless a file is named. It is read to its
end before anything is printed. -/
def readInput : Invocation → IO (List UInt8)
  | .tokenize ⟨none, _, _⟩ => do
    return (← (← IO.getStdin).readBinToEnd).data.toList
  | _ => return []

/-- What the file named by an invocation comes to. Without a named file
nothing is opened. -/
def openNamed : Invocation → IO Opened
  | .tokenize ⟨some path, _, _⟩ => openFile path
  | _ => return .directory

/-- What the program comes to, with its input read. All decisions are made
by `Program.run`. -/
def perform (arguments : List String) : IO Exit := do
  match Invocation.parse arguments with
  | .error error => return Program.refusal error
  | .ok invocation =>
    let stdin ← readInput invocation
    let opened ← openNamed invocation
    return Program.perform stdin (fun _ => opened) invocation

end LineLexer

/-- The program: it prints the report or the failure, and ends with the
exit code. -/
def main (arguments : List String) : IO UInt32 := do
  let ended ← LineLexer.perform arguments
  IO.print ended.stdout
  match ended.message with
  | some message => IO.eprint message
  | none => pure ()
  return UInt32.ofNat ended.code
