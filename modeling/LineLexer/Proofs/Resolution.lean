import LineLexer.Proofs.LongestOperator

/-!
# `LineLexer.Proofs.Resolution`: operators resolved in place

Resolving the operator of a token changes two things, the token and the
cursor, in several steps: the cursor jumps to where the operator ends,
the text is cut short, the end of the token is set, its code is written.
A caller can hand in any token, with a text of its own and a start on
another line, so the jump can lead out of the line, and then it matters
what has been changed by that time.

This module takes the steps one by one on a pair of a token and a
cursor. What a step has changed stays changed when a later one breaks
off.

* `InPlace`: steps on a token and a cursor that keep what has been changed
  when one of them breaks off.
* `Cursor.resolveInPlace`: the steps of a resolution.
* `Operator.Fronts`: the longest front of a text that spells an
  operator; `Fronts.read?`: that is what is read.
* `resolveInPlace_of_lt`, `resolveInPlace_of_le`: the jump is the first
  step, and the only one that can break off.
* `resolveOperator_eq_resolveInPlace`: the steps come to what
  `Cursor.resolveOperator` comes to.
* `Token.ResolvedTo`: what becomes of a token and a cursor.
* `Cursor.Resolves`: what holds of a resolution and of another one right
  behind it.
* `resolves`: every resolution is as `Cursor.Resolves` says, for every
  cursor and every token.
-/

set_option autoImplicit false

namespace LineLexer

open Grammar

/-- The bytes that spell an operator are ASCII. -/
theorem Operator.IsSpelledBy.ascii {op : Operator} {w : List UInt8} (h : op.IsSpelledBy w) :
    ∀ b ∈ w, b < 0x80 := by
  have hall : ∀ op ∈ Operator.all, ∀ b ∈ Utf8.encode op.spelling, b < 0x80 := by decide +kernel
  have hequal : '='.toUInt8 < 0x80 := by decide
  rcases h with rfl | ⟨-, rfl⟩
  · exact hall op (Operator.mem_all op)
  · simp only [List.forall_mem_cons]
    exact ⟨hequal, hequal, nofun⟩

/-! ### Steps that change a token and a cursor -/

/-- Steps that change a token and a cursor and can break off. What has
been changed before a step breaks off stays changed. -/
abbrev InPlace (α : Type) : Type := EStateM Failure (Token × Cursor) α

namespace InPlace

/-- An operation with a condition, which breaks off where it is. -/
def attempt {α : Type} : Except Failure α → InPlace α
  | .ok value => pure value
  | .error failure => throw failure

/-- The cursor jumps to a position, or the steps break off because it is
not in the line. -/
def jump (position : Nat) : InPlace Unit := do
  let (token, cursor) ← get
  let moved ← attempt (cursor.seekTo position)
  set (token, moved)

/-- The text of the token is cut short to some bytes. -/
def cutText (length : Nat) : InPlace Unit := do
  let (token, cursor) ← get
  let text ← attempt (truncated token.text length)
  set ({ token with text }, cursor)

/-- The token gets another end, and then all that follows from it. -/
def setEnd (stop : Nat) : InPlace Unit := do
  let (token, cursor) ← get
  let moved := { token with span := ⟨token.span.start, stop⟩ }
  set (moved, cursor)
  let _ ← attempt (cursor.cutOut moved.span)
  set (cursor.endToken moved stop, cursor)

/-- The token gets a value, and nothing else is changed. -/
def setValue (value : Int) : InPlace Unit :=
  modify fun (token, cursor) => ({ token with intValue := value }, cursor)

end InPlace

open InPlace in
/-- The code of the operator that the token's text begins with, or
zero. A longer text is cut down to the operator, where the cursor goes
too. -/
def Cursor.resolveInPlace : InPlace Nat := do
  let (token, _) ← get
  let bytes := Utf8.encode token.text
  match Operator.read? bytes with
  | none => return 0
  | some (op, length) =>
    if length < bytes.length then
      let stop := token.span.start + length
      jump stop
      cutText length
      setEnd stop
    setValue op.code
    return op.code

namespace InPlace

variable {α β : Type} {steps : InPlace α} {next : α → InPlace β} {state after : Token × Cursor}

/-- Steps behind others begin with the token and the cursor that those
have come to. -/
theorem bind_of_ok {value : α} (h : steps state = .ok value after) :
    (steps >>= next) state = next value after := by
  show EStateM.bind steps next state = _
  rw [EStateM.bind, h]

/-- If steps break off, nothing of what stands behind them happens. -/
theorem bind_of_error {failure : Failure} (h : steps state = .error failure after) :
    (steps >>= next) state = .error failure after := by
  show EStateM.bind steps next state = _
  rw [EStateM.bind, h]

section Steps
variable (token : Token) (cursor : Cursor)

/-- A jump out of the line breaks off and changes nothing. -/
theorem jump_of_lt {position : Nat} (h : cursor.line.length < position) :
    jump position (token, cursor) = .error (.pastEnd position) (token, cursor) := by
  have hseek : cursor.seekTo position = .error (.pastEnd position) := by
    rw [Cursor.seekTo, Cursor.seek, if_neg (Nat.not_le.mpr h)]
  show (attempt (cursor.seekTo position) >>= fun moved => set (token, moved)) _ = _
  rw [hseek]
  rfl

/-- A jump within the line moves the cursor alone. -/
theorem jump_of_le {position : Nat} (h : position ≤ cursor.line.length) :
    jump position (token, cursor) = .ok () (token, { cursor with position }) := by
  have hseek : cursor.seekTo position = .ok { cursor with position } := by
    rw [Cursor.seekTo, Cursor.seek, if_pos h]
  show (attempt (cursor.seekTo position) >>= fun moved => set (token, moved)) _ = _
  rw [hseek]
  rfl

/-- A text can be cut short behind the operator that it begins with, as it
is made of characters there. -/
theorem cutText_of_read? {op : Operator} {length : Nat}
    (h : Operator.read? (Utf8.encode token.text) = some (op, length)) :
    cutText length (token, cursor)
      = .ok () ({ token with text := Utf8.decode ((Utf8.encode token.text).take length) },
          cursor) := by
  obtain ⟨-, -, hle⟩ := Operator.read?_length h
  have htruncated := truncated_of_ascii hle (Operator.isLongestPrefix_spellings h).1.ascii
  show (attempt (truncated token.text length) >>= fun text => set ({ token with text }, cursor)) _
    = _
  rw [htruncated]
  rfl

/-- The end of a token can be set to any position of the line that is not
before its start. -/
theorem setEnd_of_le {stop : Nat} (hstart : token.span.start ≤ stop)
    (hstop : stop ≤ cursor.line.length) :
    setEnd stop (token, cursor) = .ok () (cursor.endToken token stop, cursor) := by
  have hcut : cursor.cutOut ⟨token.span.start, stop⟩
      = .ok ((Span.mk token.span.start stop).slice cursor.line.bytes) := by
    rw [Cursor.cutOut, if_pos ⟨hstart, hstop⟩]
  let moved := { token with span := ⟨token.span.start, stop⟩ }
  show (attempt (cursor.cutOut ⟨token.span.start, stop⟩)
    >>= fun _ => set (cursor.endToken moved stop, cursor)) (moved, cursor) = _
  rw [hcut]
  rfl

end Steps

end InPlace

/-! ### Operators at the front -/

/-- The front `w` of a text is the longest that spells an operator, and
it spells this one. -/
structure Operator.Fronts (op : Operator) (text : String) (w : List UInt8) : Prop where
  spelled : op.IsSpelledBy w
  longest : IsLongestPrefix Operator.spellings (Utf8.encode text) w

/-- The bytes from which an operator is read are the longest front of the
text that spells one. -/
theorem Operator.Fronts.of_read? {op : Operator} {length : Nat} {text : String}
    (h : Operator.read? (Utf8.encode text) = some (op, length)) :
    op.Fronts text ((Utf8.encode text).take length) :=
  ⟨(Operator.isLongestPrefix_spellings h).1, (Operator.isLongestPrefix_spellings h).2⟩

/-- The longest front of a text that spells an operator is what is read
from the text. -/
theorem Operator.Fronts.read? {op : Operator} {text : String} {w : List UInt8}
    (h : op.Fronts text w) : Operator.read? (Utf8.encode text) = some (op, w.length) := by
  have hw := Operator.read?_of_isSpelledBy h.spelled
  obtain ⟨more, htext⟩ := h.longest.front
  cases hread : Operator.read? (Utf8.encode text) with
  | none =>
    -- The front begins with the same byte, and something is read from it.
    obtain ⟨hpos, -, -⟩ := Operator.read?_length hw
    obtain ⟨first, rest, rfl⟩ := List.exists_cons_of_length_pos hpos
    rw [← htext, List.cons_append, Operator.read?, Option.map_eq_none_iff] at hread
    rw [Operator.read?, hread] at hw
    cases hw
  | some found =>
    obtain ⟨other, length⟩ := found
    obtain ⟨-, -, hle⟩ := Operator.read?_length hread
    have hother := Operator.Fronts.of_read? hread
    have hlength : length = w.length := by
      have h₁ := h.longest.longest _ hother.longest.front hother.longest.mem
      have h₂ := hother.longest.longest _ h.longest.front h.longest.mem
      rw [List.length_take, Nat.min_eq_left hle] at h₁ h₂
      exact Nat.le_antisymm h₁ h₂
    -- Two fronts of one length are the same, and it spells one operator.
    have hsame : (Utf8.encode text).take length = w := by
      rw [hlength, ← htext, List.take_left]
    have hboth := Operator.read?_take hread
    rw [hsame, hw] at hboth
    cases hboth
    rw [hlength]

/-- No operator is read exactly if the first byte of the text is no
operator character, or there is no first byte. -/
theorem Operator.read?_eq_none_iff (bytes : List UInt8) :
    Operator.read? bytes = none ↔ ∀ b ∈ bytes.head?, ByteClass.ofByte b ≠ .operator := by
  have hbyte : ∀ b : UInt8, Operator.ofByte? b = none ↔ ByteClass.ofByte b ≠ .operator :=
    forall_byte (by decide +kernel)
  cases bytes with
  | nil => simp [Operator.read?]
  | cons first rest => simp [Operator.read?, hbyte]

namespace Cursor

section Resolve
variable (cursor : Cursor) (token : Token) {op : Operator} {length : Nat}

/-! ### What the steps come to -/

/-- Whether there are steps depends on the operator that the text
begins with. -/
theorem resolveInPlace_eq_match :
    resolveInPlace (token, cursor)
      = match Operator.read? (Utf8.encode token.text) with
        | none => .ok 0 (token, cursor)
        | some (op, length) =>
          if length < (Utf8.encode token.text).length then
            (do
              InPlace.jump (token.span.start + length)
              InPlace.cutText length
              InPlace.setEnd (token.span.start + length)
              InPlace.setValue op.code
              return op.code : InPlace Nat) (token, cursor)
          else .ok op.code ({ token with intValue := op.code }, cursor) := by
  have hget : (get : InPlace (Token × Cursor)) (token, cursor)
      = .ok (token, cursor) (token, cursor) := rfl
  rw [resolveInPlace, InPlace.bind_of_ok hget]
  dsimp only
  cases Operator.read? (Utf8.encode token.text) with
  | none => rfl
  | some found =>
    dsimp only
    split <;> rfl

/-- If the operator would end behind the end of the line, nothing has
been changed when the steps break off. -/
theorem resolveInPlace_of_lt
    (hread : Operator.read? (Utf8.encode token.text) = some (op, length))
    (hlength : length < (Utf8.encode token.text).length)
    (hstop : cursor.line.length < token.span.start + length) :
    resolveInPlace (token, cursor)
      = .error (.pastEnd (token.span.start + length)) (token, cursor) := by
  rw [resolveInPlace_eq_match, hread]
  dsimp only
  rw [if_pos hlength]
  exact InPlace.bind_of_error (InPlace.jump_of_lt token cursor hstop)

/-- If the operator ends within the line, all steps are taken: the cursor
stands at its end, and the token has been cut down to it. -/
theorem resolveInPlace_of_le
    (hread : Operator.read? (Utf8.encode token.text) = some (op, length))
    (hlength : length < (Utf8.encode token.text).length)
    (hstop : token.span.start + length ≤ cursor.line.length) :
    resolveInPlace (token, cursor)
      = .ok op.code
          ({ cursor.endToken token (token.span.start + length) with
              text := Utf8.decode ((Utf8.encode token.text).take length), intValue := op.code },
            { cursor with position := token.span.start + length }) := by
  rw [resolveInPlace_eq_match, hread]
  dsimp only
  let moved := { cursor with position := token.span.start + length }
  let cut := { token with text := Utf8.decode ((Utf8.encode token.text).take length) }
  have hend : InPlace.setEnd (token.span.start + length) (cut, moved)
      = .ok () (moved.endToken cut (token.span.start + length), moved) :=
    InPlace.setEnd_of_le cut moved (Nat.le_add_right _ length) hstop
  rw [if_pos hlength, InPlace.bind_of_ok (InPlace.jump_of_le token cursor hstop),
    InPlace.bind_of_ok (InPlace.cutText_of_read? token moved hread), InPlace.bind_of_ok hend]
  rfl

/-- If a text is an operator as a whole, only the value of the token
changes. -/
theorem resolveInPlace_of_whole
    (hread : Operator.read? (Utf8.encode token.text)
      = some (op, (Utf8.encode token.text).length)) :
    resolveInPlace (token, cursor) = .ok op.code ({ token with intValue := op.code }, cursor) := by
  rw [resolveInPlace_eq_match, hread]
  exact if_neg (Nat.lt_irrefl _)

/-- If a text begins with no operator, the code is zero and nothing
changes. -/
theorem resolveInPlace_of_none (hread : Operator.read? (Utf8.encode token.text) = none) :
    resolveInPlace (token, cursor) = .ok 0 (token, cursor) := by
  rw [resolveInPlace_eq_match, hread]

/-- The resolution that changes copies comes to the same, and is
refused where the steps break off. -/
theorem resolveOperator_eq_resolveInPlace :
    (cursor.resolveOperator token).toOption
      = match resolveInPlace (token, cursor) with
        | .ok code (resolved, moved) => some (code, resolved, moved)
        | .error .. => none := by
  rw [resolveOperator]
  cases hread : Operator.read? (Utf8.encode token.text) with
  | none =>
    rw [resolveInPlace_of_none cursor token hread]
    rfl
  | some found =>
    obtain ⟨op, length⟩ := found
    obtain ⟨-, -, hle⟩ := Operator.read?_length hread
    dsimp only
    -- A longer text moves the cursor, which can fail; a whole one does not.
    split
    · next hlength =>
      rw [seek]
      split
      · next hstop =>
        rw [resolveInPlace_of_le cursor token hread hlength hstop]
        rfl
      · next hstop =>
        rw [resolveInPlace_of_lt cursor token hread hlength (Nat.lt_of_not_le hstop)]
        rfl
    · next hlength =>
      obtain rfl : length = (Utf8.encode token.text).length := by omega
      rw [resolveInPlace_of_whole cursor token hread]
      rfl

end Resolve

end Cursor

/-! ### What a resolution does -/

/-- What becomes of a token and a cursor when the front `w` of the
token's text spells the operator. -/
structure Token.ResolvedTo (token : Token) (cursor : Cursor) (op : Operator) (w : List UInt8)
    (resolved : Token) (moved : Cursor) : Prop where
  text : Utf8.encode resolved.text = w
  intValue : resolved.intValue = op.code
  byteClass : resolved.byteClass = token.byteClass
  flags : resolved.flags = token.flags
  realValue : resolved.realValue = token.realValue
  start : resolved.span.start = token.span.start
  /-- A text longer than the operator is cut down, and the cursor goes to
  where the operator ends. -/
  cut : w.length < (Utf8.encode token.text).length →
    resolved.span.stop = token.span.start + w.length ∧
      moved = { cursor with position := token.span.start + w.length }
  /-- If the text is the operator, nothing changes but the value. -/
  whole : w.length = (Utf8.encode token.text).length →
    resolved = { token with intValue := op.code } ∧ moved = cursor

namespace Cursor

/-- What holds of a resolution, and of another one right behind it. There
is one field for each thing that is promised. -/
structure Resolves (cursor : Cursor) (token : Token) : Prop where
  /-- The steps break off exactly if the operator would end behind the end
  of the line. -/
  error_iff : (∃ failure state, resolveInPlace (token, cursor) = .error failure state) ↔
    ∃ op w, Operator.Fronts op token.text w ∧ w.length < (Utf8.encode token.text).length ∧
      cursor.line.length < token.span.start + w.length
  /-- Nothing has changed if the steps have broken off. -/
  error_unchanged : ∀ failure state,
    resolveInPlace (token, cursor) = .error failure state → state = (token, cursor)
  /-- Nothing changes without an operator character in front of the
  text. -/
  of_none : (∀ b ∈ (Utf8.encode token.text).head?, ByteClass.ofByte b ≠ .operator) →
    resolveInPlace (token, cursor) = .ok 0 (token, cursor)
  /-- With an operator character in front of the text the code is that of
  the longest operator there. -/
  of_operator : (∃ b ∈ (Utf8.encode token.text).head?, ByteClass.ofByte b = .operator) →
    ∀ code resolved moved, resolveInPlace (token, cursor) = .ok code (resolved, moved) →
      ∃ op w, Operator.Fronts op token.text w ∧ code = op.code ∧
        token.ResolvedTo cursor op w resolved moved
  /-- Another resolution right behind one returns the same code and
  changes nothing. -/
  again : ∀ code state, resolveInPlace (token, cursor) = .ok code state →
    resolveInPlace state = .ok code state
  /-- The resolution that makes copies comes to the same, and is refused
  where the steps break off. -/
  agrees : (cursor.resolveOperator token).toOption
    = match resolveInPlace (token, cursor) with
      | .ok code (resolved, moved) => some (code, resolved, moved)
      | .error .. => none

section Resolve
variable {cursor : Cursor} {token : Token} {op : Operator} {w : List UInt8}

/-- An operator that ends within the line, or is the whole text, is
resolved. -/
theorem resolvedTo_of_fronts (h : op.Fronts token.text w)
    (hfits : w.length < (Utf8.encode token.text).length →
      token.span.start + w.length ≤ cursor.line.length) :
    ∃ resolved moved, resolveInPlace (token, cursor) = .ok op.code (resolved, moved) ∧
      token.ResolvedTo cursor op w resolved moved := by
  have hread := h.read?
  rcases Nat.lt_or_eq_of_le h.longest.front.length_le with hlength | hlength
  · refine ⟨_, _, resolveInPlace_of_le cursor token hread hlength (hfits hlength), ?_⟩
    -- The operator is a proper front of the text: the token is cut and the cursor jumps.
    have htake : (Utf8.encode token.text).take w.length = w :=
      List.prefix_iff_eq_take.mp h.longest.front |>.symm
    exact
      { text := by
          show Utf8.encode (Utf8.decode _) = w
          rw [htake, Utf8.encode_decode h.spelled.ascii]
        intValue := rfl
        byteClass := rfl
        flags := rfl
        realValue := rfl
        start := rfl
        cut := fun _ => ⟨rfl, rfl⟩
        whole := fun hwhole => absurd hwhole (Nat.ne_of_lt hlength) }
  · -- The operator is the whole text: only the value is set.
    rw [hlength] at hread
    refine ⟨_, _, resolveInPlace_of_whole cursor token hread, ?_⟩
    exact
      { text := (h.longest.front.eq_of_length hlength).symm
        intValue := rfl
        byteClass := rfl
        flags := rfl
        realValue := rfl
        start := rfl
        cut := fun hcut => absurd hlength (Nat.ne_of_lt hcut)
        whole := fun _ => ⟨rfl, rfl⟩ }

/-- The text of a token that has been resolved is all operator, and its
value is the code already. -/
theorem resolveInPlace_of_resolvedTo {resolved : Token} {moved : Cursor}
    (h : token.ResolvedTo cursor op w resolved moved) (hspelled : op.IsSpelledBy w) :
    resolveInPlace (resolved, moved) = .ok op.code (resolved, moved) := by
  have hread := Operator.read?_of_isSpelledBy hspelled
  rw [← h.text] at hread
  rw [resolveInPlace_of_whole moved resolved hread, ← h.intValue]

/-- All that is promised of a resolution holds of a text without an
operator in front. -/
theorem resolves_of_none (hread : Operator.read? (Utf8.encode token.text) = none) :
    cursor.Resolves token := by
  have hrun := resolveInPlace_of_none cursor token hread
  have hplain := (Operator.read?_eq_none_iff _).mp hread
  -- Nothing is changed, so there is nothing that could break off, now or again.
  refine
    { error_iff := ⟨?_, ?_⟩
      error_unchanged := ?_
      of_none := fun _ => hrun
      of_operator := fun ⟨b, hb, hoperator⟩ => absurd hoperator (hplain b hb)
      again := ?_
      agrees := resolveOperator_eq_resolveInPlace cursor token }
  · rintro ⟨failure, state, hfailed⟩
    rw [hrun] at hfailed
    cases hfailed
  · rintro ⟨op, w, hfronts, -⟩
    rw [hfronts.read?] at hread
    cases hread
  · intro failure state hfailed
    rw [hrun] at hfailed
    cases hfailed
  · intro code state hok
    rw [hrun] at hok
    cases hok
    exact hrun

/-- A text with an operator in front has an operator character in
front. -/
theorem not_forall_ne_operator (h : op.Fronts token.text w) :
    ¬ ∀ b ∈ (Utf8.encode token.text).head?, ByteClass.ofByte b ≠ .operator := by
  rw [← Operator.read?_eq_none_iff, h.read?]
  exact Option.some_ne_none _

/-- All that is promised of a resolution holds if the operator ends within
the line or is the whole text. -/
theorem resolves_of_le (h : op.Fronts token.text w)
    (hfits : w.length < (Utf8.encode token.text).length →
      token.span.start + w.length ≤ cursor.line.length) : cursor.Resolves token := by
  obtain ⟨resolved, moved, hrun, hresolved⟩ := resolvedTo_of_fronts h hfits
  refine
    { error_iff := ⟨?_, ?_⟩
      error_unchanged := ?_
      of_none := fun hnone => absurd hnone (not_forall_ne_operator h)
      of_operator := ?_
      again := ?_
      agrees := resolveOperator_eq_resolveInPlace cursor token }
  · rintro ⟨failure, state, hfailed⟩
    rw [hrun] at hfailed
    cases hfailed
  · rintro ⟨other, v, hfronts, hlength, hstop⟩
    -- A text has only one longest operator in front, and that one fits.
    have hsame := h.read?.symm.trans hfronts.read?
    rw [Option.some.injEq, Prod.mk.injEq] at hsame
    rw [← hsame.2] at hlength hstop
    exact absurd (hfits hlength) (Nat.not_le_of_lt hstop)
  · intro failure state hfailed
    rw [hrun] at hfailed
    cases hfailed
  · intro _ code _ _ hok
    rw [hrun] at hok
    cases hok
    exact ⟨op, w, h, rfl, hresolved⟩
  · intro code state hok
    rw [hrun] at hok
    cases hok
    exact resolveInPlace_of_resolvedTo hresolved h.spelled

/-- All that is promised of a resolution holds if the operator would end
behind the end of the line: the resolution breaks off. -/
theorem resolves_of_lt (h : op.Fronts token.text w)
    (hlength : w.length < (Utf8.encode token.text).length)
    (hstop : cursor.line.length < token.span.start + w.length) : cursor.Resolves token := by
  have hrun := resolveInPlace_of_lt cursor token h.read? hlength hstop
  refine
    { error_iff := ⟨fun _ => ⟨op, w, h, hlength, hstop⟩, fun _ => ⟨_, _, hrun⟩⟩
      error_unchanged := ?_
      of_none := fun hnone => absurd hnone (not_forall_ne_operator h)
      of_operator := ?_
      again := ?_
      agrees := resolveOperator_eq_resolveInPlace cursor token }
  · intro failure state hfailed
    rw [hrun] at hfailed
    cases hfailed
    rfl
  · intro _ code resolved moved hok
    rw [hrun] at hok
    cases hok
  · intro code state hok
    rw [hrun] at hok
    cases hok

/-- All that is promised of a resolution holds of every text with an
operator in front, wherever it ends. -/
theorem resolves_of_fronts (h : op.Fronts token.text w) : cursor.Resolves token := by
  by_cases hfits : w.length < (Utf8.encode token.text).length →
      token.span.start + w.length ≤ cursor.line.length
  · exact resolves_of_le h hfits
  · obtain ⟨hlength, hstop⟩ := Classical.not_imp.mp hfits
    exact resolves_of_lt h hlength (Nat.lt_of_not_le hstop)

end Resolve

/-- A resolution breaks off before it has changed anything, or finds the
longest operator at the front of the text, to which it cuts the token
down; and resolving again changes nothing. This holds of any token and any
cursor, also of a token that was made by hand. -/
theorem resolves (cursor : Cursor) (token : Token) : cursor.Resolves token := by
  cases hread : Operator.read? (Utf8.encode token.text) with
  | none => exact resolves_of_none hread
  | some found => exact resolves_of_fronts (Operator.Fronts.of_read? hread)

end Cursor

end LineLexer
