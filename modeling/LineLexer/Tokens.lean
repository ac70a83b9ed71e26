import LineLexer.Scan

/-!
# `LineLexer.Tokens`: all tokens of a line

A reader takes the tokens of a line one after the other, all in the
same mode. Once it has found no token it stays at the end of the line
and finds none again.

* `Settings`: how a line is read when nothing else is said.
* `Tokens.next`: the next token, and the reader behind it.
* `Tokens.drain`: all tokens that are left.
* `tokenize`: the tokens of a line.
* `bytesLeft_lt_of_next`: every token uses up some of the line, so
  draining ends.
-/

set_option autoImplicit false

namespace LineLexer

/-- How lines are read: what becomes of letters, what separates tokens,
and what the bytes are read as. -/
structure Settings where
  /-- Whether letters of a token's text become capitals. -/
  fold : Bool
  /-- The bytes that are delimiters besides the standard ones. -/
  pinned : List UInt8
  mode : Mode
  deriving DecidableEq, Repr

namespace Settings

/-- Capitals, no pinned byte and plain tokens, which is what holds
when nothing else is said. -/
def standard : Settings := { fold := true, pinned := [], mode := .plain }

instance : Inhabited Settings := ⟨standard⟩

/-- The cursor at the start of a line, with the delimiters of the settings
pinned. There is none for an empty line. -/
def cursor? (settings : Settings) (bytes : List UInt8) : Option Cursor :=
  (Cursor.ofBytes? 0 bytes).map fun cursor => cursor.pinAll settings.pinned

end Settings

/-- A reader of the tokens of one line. A reader of an empty line has no
cursor. -/
structure Tokens where
  cursor : Option Cursor
  mode : Mode
  fold : Bool
  deriving DecidableEq

namespace Tokens

/-- The reader of a line under the settings, before its first token. -/
def ofLine (bytes : List UInt8) (settings : Settings) : Tokens :=
  ⟨settings.cursor? bytes, settings.mode, settings.fold⟩

/-- The diagnostics reported so far, from the first on. A reader without a
cursor has none. -/
def diagnostics (tokens : Tokens) : List Diagnostic :=
  tokens.cursor.elim [] Cursor.diagnostics

/-- The number of bytes that have not been read. It falls with every
token. -/
def bytesLeft (tokens : Tokens) : Nat :=
  tokens.cursor.elim 0 fun cursor => cursor.line.length - cursor.position

/-- The next token, and the reader behind it. A reader in rest mode
has nothing to read after its first token. -/
def next (tokens : Tokens) : Option Token × Tokens :=
  match tokens.cursor with
  | none => (none, tokens)
  | some cursor =>
    let (token, scanned) := cursor.scan tokens.mode tokens.fold
    -- The cursor is kept, for its diagnostics.
    let rested :=
      if token.isNone || tokens.mode == .rest then scanned.toEnd else scanned
    (token, { tokens with cursor := some rested })

/-- Every token uses up some of the line, so fewer bytes are left behind
it. -/
theorem bytesLeft_lt_of_next {tokens later : Tokens} {token : Token}
    (h : tokens.next = (some token, later)) : later.bytesLeft < tokens.bytesLeft := by
  unfold next at h
  split at h
  · cases h
  · next cursor hcursor =>
    rcases hscan : cursor.scan tokens.mode tokens.fold with ⟨found, scanned⟩
    simp only [hscan] at h
    cases h
    have hlt := Cursor.position_lt_of_scan hscan
    have hle := Cursor.position_le_of_scan hscan
    have hline : scanned.line = cursor.line := by
      simpa [hscan] using Cursor.line_scan cursor tokens.mode tokens.fold
    rw [hline] at hle
    simp only [bytesLeft, hcursor, Option.elim_some]
    split
    · simp only [Cursor.toEnd, hline]
      omega
    · rw [hline]
      omega

/-- All tokens that are left, and the reader behind the last of them. Each
step shortens what is left of the line. -/
def drain (tokens : Tokens) : List Token × Tokens :=
  match _h : tokens.next with
  | (none, later) => ([], later)
  | (some token, later) =>
    let (more, last) := drain later
    (token :: more, last)
termination_by tokens.bytesLeft
decreasing_by exact bytesLeft_lt_of_next _h

/-- The results of asking `count` times for a token, each with the
diagnostics reported by then. -/
def take : Nat → Tokens → List (Option Token × List Diagnostic)
  | 0, _ => []
  | count + 1, tokens =>
    let (token, later) := tokens.next
    (token, later.diagnostics) :: take count later

/-! ### Laws -/

/-- Draining a reader without a next token finds nothing. It ends at the
reader that the attempt has left behind. -/
theorem drain_of_next_none {tokens later : Tokens} (h : tokens.next = (none, later)) :
    tokens.drain = ([], later) := by
  rw [drain]
  split
  · next heq =>
    rw [h] at heq
    cases heq
    rfl
  · next heq =>
    rw [h] at heq
    cases heq

/-- Draining a reader with a next token finds that token first, and then
those that draining the reader behind it finds. -/
theorem drain_of_next_some {tokens later : Tokens} {token : Token}
    (h : tokens.next = (some token, later)) :
    tokens.drain = (token :: later.drain.1, later.drain.2) := by
  rw [drain]
  split
  · next heq =>
    rw [h] at heq
    cases heq
  · next heq =>
    rw [h] at heq
    cases heq
    rfl

end Tokens

/-! ### Whole lines -/

/-- The tokens of a line in a mode. The mode that the settings name does
not count. -/
def tokenize (bytes : List UInt8) (mode : Mode) (settings : Settings) : List Token :=
  (Tokens.ofLine bytes { settings with mode }).drain.1

/-- The tokens of a line and the diagnostics reported for them. -/
def scanLine (bytes : List UInt8) (settings : Settings) :
    List Token × List Diagnostic :=
  let (tokens, last) := (Tokens.ofLine bytes settings).drain
  (tokens, last.diagnostics)

end LineLexer
