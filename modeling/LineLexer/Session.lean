import LineLexer.Tokens

/-!
# `LineLexer.Session`: a history of cursor operations

A command interpreter does not tokenize a line in one go. It scans a
token, decides, scans on, gives a token back, returns to a checkpoint,
tries something out on a clone of its cursor. A session is such a
history as data: a list of commands and, for each, what it answered.

A command that makes no sense is refused and changes nothing. Commands
can be run in a widened scope, at whose end the class table is what it
was before; a refusal inside ends every scope around it.

* `Action`: one operation on the current cursor.
* `Command`: an action, or a scope with commands of its own.
* `Session.act`: the effect of an action, or its refusal.
* `Session.perform`, `Session.performAll`: commands in a scope.
* `Session.run`: the answers of a list of commands.
-/

set_option autoImplicit false

namespace LineLexer

/-- An operation on the current cursor of a session. Each of them answers
something, and some can be refused. -/
inductive Action where
  /-- Scan a token. It joins the session's tokens. -/
  | scan (mode : Mode) (fold : Bool)
  /-- Give the last token back. -/
  | pushBack
  /-- Pass over a byte. -/
  | consume
  /-- Look at the byte some places ahead. -/
  | peek (offset : Nat)
  /-- Take the next byte. -/
  | read
  /-- Pin a byte as a delimiter. -/
  | pin (byte : UInt8)
  /-- Ask for the line. -/
  | line
  /-- Ask for the bytes that have not been read. -/
  | remaining
  /-- Ask for the class table. -/
  | classes
  /-- Ask for the classes of some bytes. -/
  | classesOf (bytes : List UInt8)
  /-- Ask for the diagnostics. -/
  | diagnostics
  /-- Take the diagnostics away. -/
  | takeDiagnostics
  /-- Save the position under a name. -/
  | checkpoint (name : String)
  /-- Go back to a saved position, which stays saved. -/
  | restore (name : String)
  /-- Save a clone of the cursor under a name. -/
  | park (name : String)
  /-- Make a clone of a saved cursor the current one. -/
  | unpark (name : String)
  /-- Make a cursor on a new line the current one. -/
  | beginLine (bytes : List UInt8)
  /-- Resolve the operator of a copy of an earlier token, whose text
  and start can be replaced. -/
  | resolve (index : Nat) (text : Option String) (start : Option Nat)
  deriving DecidableEq, Repr

/-- A step of a session: one action, or a scope with steps of its own,
behind which the classes are what they were. -/
inductive Command where
  | act (action : Action)
  /-- Run commands with a widened class table, which ends with them. -/
  | widened (widening : Widening) (body : List Command)
  deriving Repr

/-- What an action answers. There is one form for each kind of thing that
can be asked for. -/
inductive Reply where
  | done
  | token (token : Option Token)
  | byte (found : Option (UInt8 × ByteClass))
  | bytes (bytes : List UInt8)
  | classes (classes : List ByteClass)
  | table (classes : List ByteClass)
  | diagnostics (diagnostics : List Diagnostic)
  | position (position : Nat)
  | lineBegun (begun : Bool)
  | operator (code : Nat) (token : Token)
  deriving DecidableEq

/-- What can be seen of a cursor at a glance: where it is, whether a token
can be given back, and how many warnings there are. -/
structure Glance where
  position : Nat
  atEnd : Bool
  canPushBack : Bool
  warnings : Nat
  deriving DecidableEq, Repr

/-- The glance at a cursor. It is reported after every action. -/
def Cursor.glance (cursor : Cursor) : Glance :=
  { position := cursor.position
    atEnd := cursor.atEnd
    canPushBack := cursor.canPushBack
    warnings := cursor.diagnostics.length }

/-- A reply, with a glance at the cursor after it: where the cursor is,
whether it can give a token back, and how much has been reported. -/
structure Entry where
  reply : Reply
  glance : Glance
  deriving DecidableEq

/-- What a command of a session comes to: a reply, a refusal, or what a
scope has come to. -/
inductive Outcome where
  | reply (reply : Reply)
  | refused (misuse : Misuse)
  /-- The entries of a scope, and the refusal that ended it, if any. -/
  | scope (entries : List Entry) (stopped : Option Misuse)
  deriving DecidableEq

/-- A cursor in use, and what has been saved beside it. Saved things are
found by their names. -/
structure Session where
  cursor : Cursor
  /-- The tokens returned so far, in order. -/
  tokens : List Token
  /-- The saved positions, the latest first. -/
  checkpoints : List (String × Checkpoint)
  /-- The saved cursors, the latest first. -/
  parked : List (String × Cursor)
  /-- The serial number of the next line. -/
  nextSerial : Nat

/-- The commands that have been performed in a scope: what they answered,
whether one was refused, and the session after them. -/
structure Progress where
  entries : List Entry
  stopped : Option Misuse
  session : Session

namespace Session

/-- A session that begins with a cursor, whose line has the serial
number zero. -/
def ofCursor (cursor : Cursor) : Session :=
  { cursor, tokens := [], checkpoints := [], parked := [], nextSerial := 1 }

/-- The session with another current cursor, and nothing else changed. -/
def withCursor (session : Session) (cursor : Cursor) : Session := { session with cursor }

/-- The effect of an action, or its refusal. A name under which
nothing is saved and a number that no token has do nothing. -/
def act (session : Session) : Action → Except Misuse (Reply × Session)
  | .scan mode fold =>
    let (token, cursor) := session.cursor.scan mode fold
    .ok (.token token,
      { session with cursor, tokens := session.tokens ++ token.toList })
  | .pushBack => session.cursor.pushBack.map fun cursor => (.done, session.withCursor cursor)
  | .consume => .ok (.done, session.withCursor session.cursor.consume)
  | .peek offset => .ok (.byte (session.cursor.peekAt offset), session)
  | .read =>
    let (found, cursor) := session.cursor.read
    .ok (.byte found, session.withCursor cursor)
  | .pin byte => .ok (.done, session.withCursor (session.cursor.pin byte))
  | .line => .ok (.bytes session.cursor.line.bytes, session)
  | .remaining => .ok (.bytes session.cursor.remaining, session)
  | .classes => .ok (.table session.cursor.classes.toList, session)
  | .classesOf bytes => .ok (.classes (bytes.map session.cursor.classes), session)
  | .diagnostics => .ok (.diagnostics session.cursor.diagnostics, session)
  | .takeDiagnostics =>
    .ok (.diagnostics session.cursor.diagnostics,
      session.withCursor session.cursor.clearDiagnostics)
  | .checkpoint name =>
    let checkpoint := session.cursor.checkpoint
    .ok (.position checkpoint.position,
      { session with checkpoints := (name, checkpoint) :: session.checkpoints })
  | .restore name =>
    match session.checkpoints.lookup name with
    | some checkpoint =>
      (session.cursor.restore checkpoint).map fun cursor =>
        (.done, session.withCursor cursor)
    | none => .ok (.done, session)
  | .park name =>
    .ok (.done, { session with parked := (name, session.cursor) :: session.parked })
  | .unpark name =>
    .ok (.done, session.withCursor ((session.parked.lookup name).getD session.cursor))
  | .beginLine bytes =>
    match Cursor.ofBytes? session.nextSerial bytes with
    | some cursor =>
      .ok (.lineBegun true,
        { session with cursor, nextSerial := session.nextSerial + 1 })
    | none => .ok (.lineBegun false, session)
  | .resolve index text start =>
    match session.tokens[index]? with
    | some token =>
      let copy := { token with
        text := text.getD token.text
        span := ⟨start.getD token.span.start, token.span.stop⟩ }
      (session.cursor.resolveOperator copy).map fun (code, resolved, cursor) =>
        (.operator code resolved, session.withCursor cursor)
    | none => .ok (.done, session)

/-- The session at the start of a widened scope. -/
def enter (session : Session) (widening : Widening) : Session :=
  session.withCursor (session.cursor.widen widening)

/-- The session behind a scope that was entered from `outer`. The class
table is the one from before the scope. -/
def leave (session outer : Session) : Session :=
  session.withCursor (session.cursor.withClasses outer.cursor.classes)

mutual

/-- A command in a scope. A scope in a scope leaves the entries of its own
commands behind, and then one for itself. -/
def perform (session : Session) : Command → Progress
  | .act action =>
    match session.act action with
    | .ok (reply, after) => ⟨[⟨reply, after.cursor.glance⟩], none, after⟩
    | .error misuse => ⟨[], some misuse, session⟩
  | .widened widening body =>
    let inner := performAll (session.enter widening) body
    let after := inner.session.leave session
    match inner.stopped with
    | some misuse => ⟨inner.entries, some misuse, after⟩
    | none => ⟨inner.entries ++ [⟨.done, after.cursor.glance⟩], none, after⟩

/-- Commands in a scope, from the first up to the first refusal. What
comes after a refusal is not performed. -/
def performAll (session : Session) : List Command → Progress
  | [] => ⟨[], none, session⟩
  | command :: rest =>
    let first := perform session command
    match first.stopped with
    -- What stopped the command stops the scope around it too.
    | some misuse => ⟨first.entries, some misuse, first.session⟩
    | none =>
      let more := performAll first.session rest
      ⟨first.entries ++ more.entries, more.stopped, more.session⟩

end

/-- A command outside all scopes: what it comes to, and the session
after it. A refusal is reported and the session goes on. -/
def step (session : Session) : Command → Outcome × Session
  | .act action =>
    match session.act action with
    | .ok (reply, after) => (.reply reply, after)
    | .error misuse => (.refused misuse, session)
  | .widened widening body =>
    let inner := performAll (session.enter widening) body
    (.scope inner.entries inner.stopped, inner.session.leave session)

/-- What the commands come to, each with a glance at the cursor after
it. -/
def run (session : Session) : List Command → List (Outcome × Glance)
  | [] => []
  | command :: rest =>
    let (outcome, after) := session.step command
    (outcome, after.cursor.glance) :: run after rest

/-! ### Laws -/

/-- A scope gives the class table back that was in force before it,
whatever happens in it. -/
theorem classes_leave (session outer : Session) :
    (session.leave outer).cursor.classes = outer.cursor.classes := rfl

/-- A scope leaves everything about the cursor but its classes as its
commands have made it. -/
theorem glance_leave (session outer : Session) :
    (session.leave outer).cursor.glance = session.cursor.glance := rfl

end Session

end LineLexer
