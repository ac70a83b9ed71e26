import LineLexer.Cursor
import LineLexer.Lexeme
import LineLexer.Text.Utf8
import LineLexer.Token

/-!
# `LineLexer.Scan`: tokens off a cursor

A scan cuts the next lexeme off the bytes that a cursor has left,
makes a token of it and moves the cursor behind it. What it returns
depends on the line, the position and the class table alone.

* `Lexeme.Cut.scanned`: the token and the diagnostics of a cut.
* `Cursor.scan`: the next token in one of the four modes.
* `Cursor.resolveOperator`: the operator that the text of a token
  begins with; what the operator does not use is given back.
* `scan_eq_none_iff`, `position_lt_of_scan`, `position_le_of_scan`: a
  scan returns nothing at the end of the line only, and moves on,
  within the line, when it returns a token.
-/

set_option autoImplicit false

namespace LineLexer

namespace Lexeme

/-! ### What a token says about its lexeme -/

/-- The text of a lexeme, with its letters in capitals if `fold` is
set. The two parts of a quoted word are read as text on their own. -/
def text (fold : Bool) : Lexeme → String
  | operator _ spelling => Utf8.decode (Ascii.folded fold spelling)
  | numeral n => Utf8.decode (Ascii.folded fold n.text)
  | word bytes => Utf8.decode (Ascii.folded fold bytes)
  | quoted inside tail =>
    Utf8.decode (Ascii.folded fold inside) ++ Utf8.decode (Ascii.folded fold tail)

/-- The class of a token with the lexeme. Quoted text is never a number or
an operator. -/
def byteClass : Lexeme → ByteClass
  | operator .. => .operator
  | numeral _ => .digit
  | word _ | quoted .. => .other

/-- The flags of a token with the lexeme. A number has those that its
markers and its sign give it. -/
def flags : Lexeme → Flags
  | operator .. | word _ => .none
  | numeral n => { real := n.isReal, hex := n.hex, negative := n.negative, quoted := false }
  | quoted .. => { Flags.none with quoted := true }

/-- The integer value of a lexeme with the given text, or the fault of
a number that has none. -/
def intValue? (lexeme : Lexeme) (text : String) : Except NumeralFault Int :=
  match lexeme with
  | operator op _ => .ok op.code
  | numeral n => n.value? text
  | word _ | quoted .. => .ok (Utf8.byteSum text)

/-- The real value of a number in real mode, or the fault of a number that
has none. No other lexeme and no other mode gives a real value. -/
def realValue? (mode : Mode) (lexeme : Lexeme) (text : String) (intValue : Int) :
    Option (Except NumeralFault Binary64) :=
  match mode, lexeme with
  | .real, numeral n => some (n.realValue? text intValue)
  | _, _ => none

end Lexeme

/-! ### Recovering from faults -/

/-- What was read, or `fallback` in place of a fault. -/
def recovered {α : Type} (fallback : α) : Except NumeralFault α → α
  | .ok value => value
  | .error _ => fallback

/-- The fault that was met, as a list that is empty if there was none. -/
def faultOf {α : Type} : Except NumeralFault α → List NumeralFault
  | .ok _ => []
  | .error fault => [fault]

/-! ### Tokens -/

/-- A token and the diagnostics that were reported for it. There are two
at most, and none for a token that is no number. -/
structure Scanned where
  token : Token
  diagnostics : List Diagnostic
  deriving DecidableEq, Repr

/-- The token that a cut makes, if its lexeme begins at the position
`start` of the line: a number without a value is read as zero, and
its faults are reported, that of the integer value first. -/
def Lexeme.Cut.scanned (cut : Lexeme.Cut) (classes : ClassTable) (mode : Mode)
    (fold : Bool) (start : Nat) : Scanned :=
  let text := cut.lexeme.text (mode.folds fold)
  let span : Span := ⟨start, start + cut.source.length⟩
  let int := cut.lexeme.intValue? text
  let real := cut.lexeme.realValue? mode text (recovered 0 int)
  -- A number can fail to have an integer value and a real one.
  let faults := faultOf int ++ (real.map faultOf).getD []
  { token :=
      { text, span
        rawText := Utf8.decode cut.source
        byteClass := cut.lexeme.byteClass
        delimiter := cut.after.head?.getD 0
        delimiterClass := (cut.after.head?.map classes).getD .delimiter
        intValue := recovered 0 int
        realValue := real.map (recovered Binary64.zero)
        flags := cut.lexeme.flags }
    diagnostics := faults.map (Diagnostic.ofFault span) }

namespace Cursor

/-- The next lexeme ahead of a cursor, cut in the classes that are in
force in the mode. -/
def cut? (cursor : Cursor) (mode : Mode) : Option Lexeme.Cut :=
  Lexeme.cut? (mode.classes cursor.classes) mode cursor.remaining

/-- The next token in a mode, with letters in capitals if `fold` is
set, and the cursor behind it. Without a token the cursor is at the
end of the line. -/
def scan (cursor : Cursor) (mode : Mode) (fold : Bool) : Option Token × Cursor :=
  match cursor.cut? mode with
  | none => (none, cursor.toEnd)
  | some cut =>
    let classes := mode.classes cursor.classes
    let scanned := cut.scanned classes mode fold (cursor.position + cut.skipped.length)
    (some scanned.token,
      { cursor with
        position := cursor.position + cut.width classes
        lastStart := some cursor.position
        diagnostics := cursor.diagnostics ++ scanned.diagnostics })

/-- The token with its end moved to a position in the cursor's line. The
byte that stands there becomes its delimiter. -/
def endToken (cursor : Cursor) (token : Token) (stop : Nat) : Token :=
  let span : Span := ⟨token.span.start, stop⟩
  { token with
    span
    rawText := Utf8.decode (span.slice cursor.line.bytes)
    delimiter := cursor.line.bytes[stop]?.getD 0
    delimiterClass := (cursor.line.bytes[stop]?.map cursor.classes).getD .delimiter }

/-- The code of the operator that the token's text begins with, or
zero; the token with that operator as its value; and the cursor. A
longer text is cut down to the operator, and the cursor then moves to
the end of the operator, counted from where the token starts. -/
def resolveOperator (cursor : Cursor) (token : Token) :
    Except Misuse (Nat × Token × Cursor) :=
  let bytes := Utf8.encode token.text
  match Operator.read? bytes with
  | none => .ok (0, token, cursor)
  | some (op, length) =>
    if length < bytes.length then
      let stop := token.span.start + length
      (cursor.seek stop).map fun moved =>
        let shortened := cursor.endToken token stop
        (op.code,
          { shortened with text := Utf8.decode (bytes.take length), intValue := op.code },
          moved)
    else .ok (op.code, { token with intValue := op.code }, cursor)

/-! ### Laws -/

/-- A scan returns no token exactly if no lexeme can be cut off the bytes
that are left. -/
theorem scan_eq_none_iff (cursor : Cursor) (mode : Mode) (fold : Bool) :
    (cursor.scan mode fold).1 = none ↔ cursor.cut? mode = none := by
  unfold scan
  split
  · next h => simp [h]
  · next h => simp [h]

/-- Scanning keeps the line of the cursor, whether a token is found or
not. -/
@[simp] theorem line_scan (cursor : Cursor) (mode : Mode) (fold : Bool) :
    (cursor.scan mode fold).2.line = cursor.line := by
  unfold scan
  split <;> rfl

/-- Scanning keeps the class table of the cursor. A mode's widening is in
force during the scan only. -/
@[simp] theorem classes_scan (cursor : Cursor) (mode : Mode) (fold : Bool) :
    (cursor.scan mode fold).2.classes = cursor.classes := by
  unfold scan
  split <;> rfl

/-- A scan that returns a token moves the cursor on by at least one
byte. -/
theorem position_lt_of_scan {cursor next : Cursor} {mode : Mode} {fold : Bool}
    {token : Token} (h : cursor.scan mode fold = (some token, next)) :
    cursor.position < next.position := by
  unfold scan at h
  split at h
  · cases h
  · next cut _ =>
    cases h
    have := cut.width_pos (mode.classes cursor.classes)
    dsimp only
    omega

/-- A scan that returns a token leaves the cursor within the line or at
its end. -/
theorem position_le_of_scan {cursor next : Cursor} {mode : Mode} {fold : Bool}
    {token : Token} (h : cursor.scan mode fold = (some token, next)) :
    next.position ≤ next.line.length := by
  unfold scan at h
  split at h
  · cases h
  · next cut hcut =>
    cases h
    have hle : cut.width (mode.classes cursor.classes) ≤ cursor.remaining.length :=
      Lexeme.Cut.width_le hcut
    have hpos := cut.width_pos (mode.classes cursor.classes)
    rw [length_remaining] at hle
    dsimp only
    omega

end Cursor

end LineLexer
