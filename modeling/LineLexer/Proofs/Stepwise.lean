import LineLexer.Scan

/-!
# `LineLexer.Proofs.Stepwise`: scanning byte by byte

`Cursor.scan` cuts a lexeme off a list of bytes, and nothing in it can
fail. A scanner that holds one position and moves it byte by byte has
a harder life: it steps back over bytes that it should not have read,
jumps to where an operator ends, cuts parts out of the line and a text
short, and takes the negative of a machine integer. Each of these has
a condition, and breaks off if the condition does not hold.

This module is such a scanner. Its state is a draft of the lexeme and
the position; what it looks up or computes on the way (classes, the
bytes that a number takes, values, texts) is what `Cursor.scan` looks
up and computes.

* `Failure`: where a scan could break off.
* `Cursor.unread`, `Cursor.seekTo`, `Cursor.cutOut`, `truncated`,
  `negated`: the operations that have a condition.
* `Draft.take`: what one more byte does to a draft.
* `Cursor.extend`: bytes are taken up to the end of the lexeme.
* `Cursor.scanStepwise`: the scan in each of the four modes.

That it never breaks off, and comes to what `Cursor.scan` comes to, is
shown in `LineLexer.Proofs.Unfailing`.
-/

set_option autoImplicit false

namespace LineLexer

open Ascii

/-- The ways in which a scan byte by byte could break off. Each operation
below that has a condition breaks off with one of them. -/
inductive Failure where
  /-- A step back from the start of the line. -/
  | beforeStart
  /-- A jump past the end of the line. -/
  | pastEnd (position : Nat)
  /-- A part of the line that it does not have. -/
  | outOfLine (span : Span)
  /-- A lexeme that begins with a delimiter. -/
  | delimiterFirst
  /-- A text that would end inside a character. -/
  | withinCharacter (length : Nat)
  /-- A negative that is no 64-bit integer. -/
  | noNegative (value : Int)
  deriving DecidableEq, Repr

/-! ### Operations with a condition -/

/-- The negative of a 64-bit integer. The least one has none that is a
64-bit integer, so its negation breaks off. -/
def negated (value : Int) : Except Failure Int :=
  if value = minInteger then .error (.noNegative value) else .ok (-value)

/-- Whether a character of the text begins, or the text ends, behind its
first `length` bytes. -/
def isBoundary (bytes : List UInt8) (length : Nat) : Bool :=
  length = 0 || length = bytes.length || bytes[length]?.any fun b => !Utf8.isTail b

/-- The first `length` bytes of a text, which must end between two
characters. -/
def truncated (text : String) (length : Nat) : Except Failure String :=
  if isBoundary (Utf8.encode text) length then
    .ok (Utf8.decode ((Utf8.encode text).take length))
  else .error (.withinCharacter length)

namespace Cursor

/-- The cursor one byte back. At the start of the line there is no such
byte, and the step breaks off. -/
def unread (cursor : Cursor) : Except Failure Cursor :=
  if cursor.position = 0 then .error .beforeStart
  else .ok { cursor with position := cursor.position - 1 }

/-- The cursor at a position, which must be one of the line's or its
end. -/
def seekTo (cursor : Cursor) (position : Nat) : Except Failure Cursor :=
  match cursor.seek position with
  | .ok moved => .ok moved
  | .error _ => .error (.pastEnd position)

/-- The bytes of the line at a span, which must lie in the line and not
end before it starts. -/
def cutOut (cursor : Cursor) (span : Span) : Except Failure (List UInt8) :=
  if span.start ≤ span.stop ∧ span.stop ≤ cursor.line.length then
    .ok (span.slice cursor.line.bytes)
  else .error (.outOfLine span)

/-- The token with its end set, and all that follows from where it ends:
the raw text, and the delimiter with its class. -/
def finish (cursor : Cursor) (token : Token) (stop : Nat) : Except Failure Token := do
  let _ ← cursor.cutOut ⟨token.span.start, stop⟩
  return cursor.endToken token stop

/-- The cursor with one more warning about the token for each fault. -/
def report (cursor : Cursor) (token : Token) (faults : List NumeralFault) : Cursor :=
  { cursor with
    diagnostics := cursor.diagnostics ++ faults.map (Diagnostic.ofFault token.span) }

end Cursor

/-! ### Lexemes under construction -/

/-- A lexeme as far as it has been read: the bytes that make its text, or
the number that they have come to. -/
inductive Draft where
  /-- The bytes of an operator, or a sign that may belong to a number. -/
  | operator (bytes : List UInt8)
  | numeral (n : Numeral)
  | word (bytes : List UInt8)
  /-- The bytes behind an opening quote. -/
  | quoted (quote : UInt8) (bytes : List UInt8)
  deriving DecidableEq, Repr

/-- What the byte that has just been read does to the lexeme: the lexeme
goes on with it, or ends. -/
inductive Verdict where
  /-- The lexeme takes the byte and goes on. -/
  | more (draft : Draft)
  /-- The lexeme ends at the position `stop`. The cursor comes to rest
  where the next lexeme is looked for, which may be behind `stop`. -/
  | ended (draft : Draft) (stop : Nat) (cursor : Cursor)
  deriving DecidableEq

namespace Draft

/-- The lexeme that a byte of a class begins. A delimiter begins none. -/
def begin (c : ByteClass) (first : UInt8) : Except Failure Draft :=
  match c with
  | .delimiter => .error .delimiterFirst
  | .operator => .ok (.operator [first])
  | .digit => .ok (.numeral (.start first))
  | .other => .ok (if isQuote first then .quoted first [] else .word [first])

/-- The bytes that make the text of a lexeme. -/
def bytes : Draft → List UInt8
  | operator bytes | word bytes | quoted _ bytes => bytes
  | numeral n => n.text

/-- The class of the token of a lexeme. -/
def byteClass : Draft → ByteClass
  | operator _ => .operator
  | numeral _ => .digit
  | word _ | quoted .. => .other

/-- The flags of the token of a lexeme as far as the lexeme tells. -/
def flags : Draft → Flags
  | operator _ | word _ => .none
  | numeral n => { real := n.isReal, hex := n.hex, negative := n.negative, quoted := false }
  | quoted .. => { Flags.none with quoted := true }

/-- The lexeme ends before the byte that was read last, and the cursor
steps back over that byte. -/
def endBefore (draft : Draft) (cursor : Cursor) : Except Failure Verdict := do
  let back ← cursor.unread
  return .ended draft back.position back

/-- The lexeme ends before the byte that was read last, and the cursor
stays behind that byte. -/
def endPast (draft : Draft) (cursor : Cursor) : Except Failure Verdict := do
  let back ← cursor.unread
  return .ended draft back.position cursor

/-- What becomes of a lexeme when the cursor has read the byte `b` of
class `c`. A number asks what it makes of the byte, a word goes on over
its class, and a quoted word up to its quote. An operator takes a second
byte of its class, and a sign becomes a number before a digit. -/
def take (reals : Bool) (cursor : Cursor) (b : UInt8) (c : ByteClass) :
    Draft → Except Failure Verdict
  | quoted quote bytes =>
    if b = quote then .ok (.ended (quoted quote bytes) cursor.position cursor)
    else .ok (.more (quoted quote (bytes ++ [b])))
  | operator bytes =>
    match c with
    | .delimiter | .other => endBefore (operator bytes) cursor
    | .operator =>
      if 2 ≤ bytes.length then endBefore (operator bytes) cursor
      else .ok (.more (operator (bytes ++ [b])))
    | .digit =>
      match bytes with
      | [sign] =>
        -- A sign alone belongs to the number.
        if isSign sign && b != Numeral.underscore then
          .ok (.more (numeral (.startSigned sign b)))
        else endBefore (operator [sign]) cursor
      | bytes =>
        -- A sign behind another operator is left to the number.
        if bytes.getLast?.any isSign then do
          let back ← cursor.unread
          endBefore (operator bytes.dropLast) back
        else endBefore (operator bytes) cursor
  | numeral n =>
    match c with
    | .delimiter => endPast (numeral n) cursor
    | .operator | .digit | .other =>
      match n.next? cursor.classes reals b cursor.remaining with
      | some next => .ok (.more (numeral next))
      | none => endBefore (numeral n) cursor
  | word bytes =>
    match c with
    | .delimiter => endPast (word bytes) cursor
    | .other => .ok (.more (word (bytes ++ [b])))
    | .operator | .digit => endBefore (word bytes) cursor

/-- The token of a lexeme, with all that the lexeme tells. Its end and the
values are set later. -/
def token (draft : Draft) (fold : Bool) (start : Nat) : Token :=
  { text := Utf8.decode (folded fold draft.bytes), rawText := "", span := ⟨start, start⟩,
    byteClass := draft.byteClass, delimiter := 0, delimiterClass := .delimiter,
    intValue := 0, realValue := none, flags := draft.flags }

end Draft

/-- The integer value of a number, or its fault. Negating the magnitude
breaks off where that is no 64-bit integer. -/
def Numeral.valueChecked (n : Numeral) (text : String) :
    Except Failure (Except NumeralFault Int) :=
  if n.hex then
    match readHex text with
    | .ok value =>
      if n.negative then (negated value).map .ok else .ok (.ok value)
    | .error fault => .ok (.error fault)
  else .ok (n.value? text)

namespace Cursor

/-! ### Reading -/

/-- A cursor that sees a byte is before the end of its line. -/
theorem position_lt_of_peek {cursor : Cursor} {found : UInt8 × ByteClass}
    (h : cursor.peek = some found) : cursor.position < cursor.line.length := by
  obtain ⟨b, hb, -⟩ := Option.map_eq_some_iff.mp h
  exact (List.getElem?_eq_some_iff.mp hb).1

/-- Consuming a byte that is there leaves less of the line. -/
theorem length_sub_consume_lt {cursor : Cursor} {found : UInt8 × ByteClass}
    (h : cursor.peek = some found) :
    cursor.consume.line.length - cursor.consume.position
      < cursor.line.length - cursor.position := by
  have hlt := position_lt_of_peek h
  have hend : cursor.atEnd = false := by simpa [atEnd] using hlt
  simp only [consume, hend, Bool.false_eq_true, if_false]
  omega

/-- The first byte that is no delimiter, with its class, and the cursor
behind that byte. Delimiters before it are passed over. -/
def readFirst (cursor : Cursor) : Option (UInt8 × ByteClass) × Cursor :=
  match _h : cursor.peek with
  | none => (none, cursor)
  | some (b, c) =>
    if c = .delimiter then readFirst cursor.consume else (some (b, c), cursor.consume)
termination_by cursor.line.length - cursor.position
decreasing_by exact length_sub_consume_lt _h

/-- The lexeme with all its bytes, the position where it ends, and the
cursor where it comes to rest. Bytes are read one by one until one of them
ends the lexeme, or the line ends. -/
def extend (reals : Bool) (draft : Draft) (cursor : Cursor) :
    Except Failure (Draft × Nat × Cursor) :=
  match _h : cursor.peek with
  | none => .ok (draft, cursor.position, cursor)
  | some (b, c) =>
    match draft.take reals cursor.consume b c with
    | .ok (.more next) => extend reals next cursor.consume
    | .ok (.ended last stop rested) => .ok (last, stop, rested)
    | .error failure => .error failure
termination_by cursor.line.length - cursor.position
decreasing_by exact length_sub_consume_lt _h

/-- The bytes of class other from the cursor on, and the cursor behind
them. -/
def readOthers (cursor : Cursor) : List UInt8 × Cursor :=
  match _h : cursor.peek with
  | some (b, .other) =>
    let (more, rested) := readOthers cursor.consume
    (b :: more, rested)
  | _ => ([], cursor)
termination_by cursor.line.length - cursor.position
decreasing_by exact length_sub_consume_lt _h

/-! ### Tokens -/

/-- The token with the operator that its text begins with as its value.
A longer text is cut down to the operator, and the cursor jumps to
where the operator ends. -/
def setOperator (cursor : Cursor) (token : Token) : Except Failure (Token × Cursor) :=
  match Operator.read? (Utf8.encode token.text) with
  | none => .ok (token, cursor)
  | some (op, length) =>
    if length < (Utf8.encode token.text).length then do
      let stop := token.span.start + length
      let moved ← cursor.seekTo stop
      let text ← truncated token.text length
      let shortened ← moved.finish { token with text } stop
      return ({ shortened with intValue := op.code }, moved)
    else .ok ({ token with intValue := op.code }, cursor)

/-- The token with the integer value of its lexeme. An operator has its
code and a word the sum of its bytes. A number has its value, or a fault
that is reported. -/
def setIntValue (cursor : Cursor) (draft : Draft) (token : Token) :
    Except Failure (Token × Cursor) :=
  match draft with
  | .numeral n => do
    let value ← n.valueChecked token.text
    return ({ token with intValue := recovered 0 value },
      cursor.report token (faultOf value))
  | .operator _ => cursor.setOperator token
  | .word _ | .quoted .. =>
    .ok ({ token with intValue := Utf8.byteSum token.text }, cursor)

/-- The next token by the cursor's own class table, and the cursor behind
the token. There is none if only delimiters are left. -/
def scanLexeme (cursor : Cursor) (reals fold : Bool) :
    Except Failure (Option Token × Cursor) :=
  match cursor.readFirst with
  | (none, rested) => .ok (none, rested)
  | (some (first, c), begun) => do
    let before ← begun.unread
    let draft ← Draft.begin c first
    let (draft, stop, rested) ← extend reals draft begun
    let token ← rested.finish (draft.token fold before.position) stop
    let (token, rested) ← rested.setIntValue draft token
    return (some token, { rested with lastStart := some cursor.position })

/-- The token with its real value if it is a number. A fault of it is
reported. -/
def setRealValue (cursor : Cursor) (token : Token) : Token × Cursor :=
  if token.byteClass = .digit then
    let value :=
      if token.flags.hex then .ok (Binary64.ofInt token.intValue)
      else (Numeral.readReal token.text).map (Binary64.signed token.flags.negative)
    ({ token with realValue := some (recovered Binary64.zero value) },
      cursor.report token (faultOf value))
  else (token, cursor)

/-- The token with the bytes of class other that stand right behind its
closing quote. -/
def addTail (cursor : Cursor) (token : Token) (fold : Bool) :
    Except Failure (Token × Cursor) :=
  if token.flags.quoted ∧ token.span.stop = cursor.position then
    match cursor.readOthers with
    | ([], _) => .ok (token, cursor)
    | (b :: more, rested) => do
      let text := token.text ++ Utf8.decode (folded fold (b :: more))
      let longer ← rested.finish
        { token with text, intValue := Utf8.byteSum text } rested.position
      match rested.peek with
      | some (_, .delimiter) => return (longer, rested.consume)
      | _ => return (longer, rested)
  else .ok (token, cursor)

/-- All that is left of the line as one token, from the first byte that is
no delimiter. -/
def scanRest (cursor : Cursor) (fold : Bool) : Except Failure (Option Token × Cursor) :=
  if cursor.atEnd then .ok (none, cursor)
  else do
    let stop := cursor.line.length
    let bytes ← cursor.cutOut ⟨cursor.position, stop⟩
    let moved ← cursor.seekTo stop
    let token := (Draft.word bytes).token fold cursor.position
    let token ← moved.finish { token with intValue := Utf8.byteSum token.text } stop
    return (some token, { moved with lastStart := some cursor.position })

/-- The next token in a mode, and the cursor behind it. In real and in
word mode the class table is widened for the time of the scan. -/
def scanStepwise (cursor : Cursor) (mode : Mode) (fold : Bool) :
    Except Failure (Option Token × Cursor) :=
  match mode with
  | .plain => cursor.scanLexeme false fold
  | .real => do
    match ← (cursor.widen .real).scanLexeme true true with
    | (none, rested) => return (none, rested.withClasses cursor.classes)
    | (some token, rested) =>
      let (token, rested) := (rested.withClasses cursor.classes).setRealValue token
      return (some token, rested)
  | .word => do
    match ← (cursor.widen .word).scanLexeme false fold with
    | (none, rested) => return (none, rested.withClasses cursor.classes)
    | (some token, rested) =>
      let (token, rested) ← rested.addTail token fold
      return (some token, rested.withClasses cursor.classes)
  | .rest => cursor.scanRest fold

end Cursor

end LineLexer
