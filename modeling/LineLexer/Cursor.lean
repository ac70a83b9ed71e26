import LineLexer.ClassTable
import LineLexer.Diagnostic
import LineLexer.Line

/-!
# `LineLexer.Cursor`: a position in a line

A cursor moves over one line. It holds the position of the next byte,
the class table in force, the diagnostics reported so far, and the
position to go back to when the last token is pushed back.

Three operations can be asked for when they make no sense: a push
back with no token to give back, a checkpoint from another line, and a
position past the end. Each is then refused with a `Misuse` and
changes nothing.

* `Cursor.pushBack`, `Cursor.restore`, `Cursor.seek`: the three.
* `remaining_append`: the bytes read and the bytes left make the line.
-/

set_option autoImplicit false

namespace LineLexer

/-- Why an operation on a cursor is refused. A refused operation changes
nothing. -/
inductive Misuse where
  | nothingToPushBack
  | foreignCheckpoint
  | pastEnd (position : Nat)
  deriving DecidableEq, Repr

/-- The wording of a refusal, as the program reports it. -/
def Misuse.message : Misuse → String
  | nothingToPushBack => "push_back without a token to push back"
  | foreignCheckpoint => "checkpoint restored onto a different line"
  | pastEnd position => s!"position {position} is past end of line"

/-- A position in a particular line. It holds the line too, so that it can
be refused on any other. -/
structure Checkpoint where
  line : Line
  position : Nat
  deriving DecidableEq

/-- A place in a line, and what is known there: the classes in force and
the diagnostics reported on the way. -/
structure Cursor where
  line : Line
  /-- The position of the next byte. -/
  position : Nat
  /-- Where the scan that returned the last token began, unless that
  token has been given back. -/
  lastStart : Option Nat
  classes : ClassTable
  diagnostics : List Diagnostic
  deriving DecidableEq

namespace Cursor

/-- The cursor at the start of a line, with the standard classes and
without diagnostics. There is no token to give back yet. -/
def ofLine (line : Line) : Cursor :=
  { line, position := 0, lastStart := none, classes := .standard, diagnostics := [] }

/-- The cursor at the start of some bytes, which end at their first NUL.
There is none if nothing stands before the NUL. -/
def ofBytes? (serial : Nat) (bytes : List UInt8) : Option Cursor :=
  (Line.ofBytes? serial bytes).map ofLine

/-! ### Looking -/

/-- The bytes of the line that have not been read, from the position to
the end. -/
def remaining (cursor : Cursor) : List UInt8 :=
  cursor.line.bytes.drop cursor.position

/-- Whether no byte of the line is left to read. -/
def atEnd (cursor : Cursor) : Bool := cursor.line.length ≤ cursor.position

/-- The byte `offset` places behind the next one, with its class in the
table in force. Looking ahead does not move the cursor. -/
def peekAt (cursor : Cursor) (offset : Nat) : Option (UInt8 × ByteClass) :=
  cursor.line.bytes[cursor.position + offset]?.map fun b => (b, cursor.classes b)

/-- The next byte of the line with its class, if there is one. -/
def peek (cursor : Cursor) : Option (UInt8 × ByteClass) := cursor.peekAt 0

/-- Whether a token can be given back. Giving it back uses up the chance,
and so does going back to a checkpoint. -/
def canPushBack (cursor : Cursor) : Bool := cursor.lastStart.isSome

/-- The position of the cursor as one to come back to. -/
def checkpoint (cursor : Cursor) : Checkpoint := ⟨cursor.line, cursor.position⟩

/-! ### Moving -/

/-- The cursor one byte further on, or where it is at the end of the
line. -/
def consume (cursor : Cursor) : Cursor :=
  if cursor.atEnd then cursor else { cursor with position := cursor.position + 1 }

/-- The next byte with its class, and the cursor behind it. At the end of
the line the cursor stays where it is. -/
def read (cursor : Cursor) : Option (UInt8 × ByteClass) × Cursor :=
  (cursor.peek, cursor.consume)

/-- The cursor at the end of the line, with all bytes read. -/
def toEnd (cursor : Cursor) : Cursor :=
  { cursor with position := cursor.line.length }

/-- The cursor at a position in the line or at its end. A position past
the end is refused. -/
def seek (cursor : Cursor) (position : Nat) : Except Misuse Cursor :=
  if position ≤ cursor.line.length then .ok { cursor with position }
  else .error (.pastEnd position)

/-- The cursor where the scan of the last token began. The token has then
been given back, and cannot be given back again. -/
def pushBack (cursor : Cursor) : Except Misuse Cursor :=
  match cursor.lastStart with
  | some start => .ok { cursor with position := start, lastStart := none }
  | none => .error .nothingToPushBack

/-- The cursor at a checkpoint on its line. No token can be given back
then. A checkpoint from another line is refused. -/
def restore (cursor : Cursor) (checkpoint : Checkpoint) : Except Misuse Cursor :=
  if checkpoint.line = cursor.line then
    .ok { cursor with position := checkpoint.position, lastStart := none }
  else .error .foreignCheckpoint

/-! ### Classes and diagnostics -/

/-- The cursor with one more byte pinned as a delimiter. The position
stays. -/
def pin (cursor : Cursor) (byte : UInt8) : Cursor :=
  { cursor with classes := (cursor.classes.pin byte).settled }

/-- The cursor with all of the bytes pinned as delimiters. The position
stays. -/
def pinAll (cursor : Cursor) (bytes : List UInt8) : Cursor :=
  { cursor with classes := cursor.classes.pinAll bytes }

/-- The cursor with its class table widened. The position stays. -/
def widen (cursor : Cursor) (widening : Widening) : Cursor :=
  { cursor with classes := (cursor.classes.widen widening).settled }

/-- The cursor with another class table in place of its own. This is how
the classes are restored at the end of a scope. -/
def withClasses (cursor : Cursor) (classes : ClassTable) : Cursor :=
  { cursor with classes }

/-- The cursor with its diagnostics dropped. The classes and the position
stay. -/
def clearDiagnostics (cursor : Cursor) : Cursor :=
  { cursor with diagnostics := [] }

/-! ### Laws -/

/-- The bytes that have been read and the bytes that are left make up the
line. -/
theorem remaining_append (cursor : Cursor) :
    cursor.line.bytes.take cursor.position ++ cursor.remaining = cursor.line.bytes :=
  List.take_append_drop _ _

/-- The bytes that are left are as many as stand behind the position. None
are left if the position is the end. -/
theorem length_remaining (cursor : Cursor) :
    cursor.remaining.length = cursor.line.length - cursor.position := by
  simp [remaining, Line.length]

/-- No byte is left exactly if the cursor is at the end of its line. -/
theorem remaining_eq_nil_iff (cursor : Cursor) :
    cursor.remaining = [] ↔ cursor.atEnd = true := by
  rw [remaining, List.drop_eq_nil_iff, atEnd, decide_eq_true_iff]
  exact Iff.rfl

/-- Pinning a byte on a cursor pins it in the cursor's class table. -/
@[simp] theorem classes_pin (cursor : Cursor) (byte : UInt8) :
    (cursor.pin byte).classes = cursor.classes.pin byte :=
  ClassTable.settled_eq _

/-- Widening a cursor widens the cursor's class table. -/
@[simp] theorem classes_widen (cursor : Cursor) (widening : Widening) :
    (cursor.widen widening).classes = cursor.classes.widen widening :=
  ClassTable.settled_eq _

/-- Looking ahead finds a byte among those that are left, with its class.
The next byte is the first of them. -/
theorem peekAt_eq (cursor : Cursor) (offset : Nat) :
    cursor.peekAt offset
      = cursor.remaining[offset]?.map fun b => (b, cursor.classes b) := by
  simp [peekAt, remaining]

end Cursor

end LineLexer
