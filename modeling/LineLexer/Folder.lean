/-!
# `LineLexer.Folder`: files by their path

The program reads a file that is named by a path. A folder is a small
model of where such a path leads: it holds some files side by side and
no other folder.

* `Folder.openPath`: the file at a path, or why there is none.
* `OpenFault.message`: the operating system's wording.
-/

set_option autoImplicit false

namespace LineLexer

/-- Why a path leads to no file. The program stops with the wording of the
reason. -/
inductive OpenFault where
  | notFound
  | notDirectory
  | nameTooLong
  deriving DecidableEq, Repr

/-- The operating system's wording of a fault, with its number. The
program gives it as the cause why the file could not be opened. -/
def OpenFault.message : OpenFault → String
  | notFound => "No such file or directory (os error 2)"
  | notDirectory => "Not a directory (os error 20)"
  | nameTooLong => "File name too long (os error 36)"

/-- The operating system's wording when a directory is read like a file.
It is found out only after the directory has been opened. -/
def directoryMessage : String := "Is a directory (os error 21)"

/-- What opening a path comes to: a file with its bytes, a directory, or a
reason why nothing was opened. -/
inductive Opened where
  | file (bytes : List UInt8)
  /-- A directory can be opened but not read. -/
  | directory
  /-- Nothing could be opened, for the reason in the message. -/
  | failed (message : String)
  deriving DecidableEq, Repr

/-- Files by their names, side by side in one directory. The names are
searched from the front. -/
structure Folder where
  files : List (String × List UInt8)

namespace Folder

/-- The parts of a path between slashes, without those that stay in
the same directory. The empty part behind a slash at the end counts as
one that stays. -/
def parts (path : String) : List String :=
  path.splitOn "/"

/-- Whether a part of a path stays in the directory it is reached from, as
an empty part and a single point do. -/
def staysPut (part : String) : Bool := part = "" || part = "."

/-- What a path in the folder leads to, part by part. Outside the
folder nothing but directories on the way up is known. -/
def walk (folder : Folder) : List String → Opened
  | [] => .directory
  | part :: rest =>
    if staysPut part then folder.walk rest
    else if 255 < part.utf8ByteSize then .failed OpenFault.nameTooLong.message
    else if part = ".." then
      if rest.all fun p => staysPut p || p = ".." then .directory
      else .failed OpenFault.notFound.message
    else
      match folder.files.lookup part with
      | none => .failed OpenFault.notFound.message
      | some bytes =>
        if rest.isEmpty then .file bytes else .failed OpenFault.notDirectory.message

/-- What opening a path comes to, if the folder is the working
directory. A path from the root leads to a directory only if it goes
no further. -/
def openPath (folder : Folder) (path : String) : Opened :=
  if path = "" then .failed OpenFault.notFound.message
  else if 4095 < path.utf8ByteSize then .failed OpenFault.nameTooLong.message
  else if path.startsWith "/" then (Folder.mk []).walk (parts path)
  else folder.walk (parts path)

end Folder

end LineLexer
