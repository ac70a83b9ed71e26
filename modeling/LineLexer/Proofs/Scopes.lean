import LineLexer.Proofs.History
import LineLexer.Tokens

/-!
# `LineLexer.Proofs.Scopes`: the class table in and behind scopes

A byte is pinned for as long as the innermost scope lasts in which that
was done, and a widening lasts as long as its scope. So the class table
is a stack: each open scope stands on the table from which it was
entered, and differs from it by its widening and by the bytes pinned
in it.

* `Levels`: the bytes pinned at each level of the stack.
* `Stacked`: the tables of a moment and its levels fit together; every
  move keeps that.
* `Moment.Disciplined`: outside all scopes the table is the standard
  one with the bytes pinned there; behind a scope it is what it was
  before; and its delimiters are at all times the standard ones and the
  bytes pinned at an open level.
* `Moment.disciplined_run`: scopes give back what they have changed, at
  every moment of a cursor's history.
* `Session.classes_after`: the class table after any commands.
-/

set_option autoImplicit false

namespace LineLexer

/-! ### Levels -/

/-- The bytes that have been pinned, by the level at which that was
done. -/
structure Levels where
  /-- The bytes pinned since the innermost scope was entered. -/
  here : List UInt8
  /-- The bytes pinned at the levels around the innermost scope, the
  outermost last. -/
  around : List (List UInt8)
  deriving DecidableEq, Repr

namespace Levels

/-- The only level that there is before any scope, with the bytes that the
settings pin. -/
def start (pinned : List UInt8) : Levels := ⟨pinned, []⟩

/-- The levels after a move. A scope has a level of its own, with which
the bytes pinned in it are forgotten. -/
def next (levels : Levels) : Move → Levels
  | .act (.pin byte) => { levels with here := byte :: levels.here }
  | .act _ => levels
  | .enter _ => ⟨[], levels.here :: levels.around⟩
  | .leave =>
    match levels.around with
    | [] => levels
    | here :: around => ⟨here, around⟩

/-- The levels after some moves, one after the other. -/
def run (levels : Levels) (moves : List Move) : Levels := moves.foldl next levels

/-- The byte has been pinned at a level that is still open. -/
def Pins (levels : Levels) (b : UInt8) : Prop :=
  b ∈ levels.here ∨ ∃ pinned ∈ levels.around, b ∈ pinned

end Levels

/-! ### Tables on a stack -/

/-- A class table, with the tables from which the open scopes were
entered, that is made of the bytes pinned at each level. -/
inductive Stacked : ClassTable → List ClassTable → List UInt8 → List (List UInt8) → Prop where
  | outside (pinned : List UInt8) : Stacked (ClassTable.standard.pinAll pinned) [] pinned []
  | inside {table outer : ClassTable} {tables : List ClassTable} {here pinned : List UInt8}
    {around : List (List UInt8)} (houter : Stacked outer tables pinned around)
    (h : ∀ b, table b = .delimiter ↔ outer b = .delimiter ∨ b ∈ here) :
    Stacked table (outer :: tables) here (pinned :: around)

namespace Stacked
variable {table : ClassTable} {tables : List ClassTable} {here : List UInt8}
  {around : List (List UInt8)}

/-- A table with no scope around it is the standard one with the bytes of
its level pinned, and there is no other level. -/
theorem eq_of_outside (h : Stacked table [] here around) :
    table = ClassTable.standard.pinAll here ∧ around = [] := by
  cases h
  exact ⟨rfl, rfl⟩

/-- The delimiters of a table are the standard ones and the bytes pinned
at some level. No widening has a part in this. -/
theorem delimiter_iff (h : Stacked table tables here around) (b : UInt8) :
    table b = .delimiter ↔
      ByteClass.ofByte b = .delimiter ∨ Levels.Pins ⟨here, around⟩ b := by
  induction h with
  | outside pinned =>
    rw [ClassTable.pinAll_apply]
    by_cases hb : b ∈ pinned <;> simp [Levels.Pins, hb]
  | inside houter h ih =>
    rw [h, ih]
    simp only [Levels.Pins, List.mem_cons, exists_eq_or_imp]
    grind

/-- Pinning a byte pins it at the innermost level. -/
theorem pin (h : Stacked table tables here around) (byte : UInt8) :
    Stacked (table.pin byte) tables (byte :: here) around := by
  cases h with
  | outside =>
    -- In which order the bytes are pinned makes no difference.
    have heq : (ClassTable.standard.pinAll here).pin byte
        = ClassTable.standard.pinAll (byte :: here) := by
      ext b
      by_cases hbyte : b = byte <;> by_cases hhere : b ∈ here <;>
        simp [ClassTable.pin_apply, ClassTable.pinAll_apply, hbyte, hhere]
    rw [heq]
    exact outside _
  | inside houter h =>
    refine inside houter fun b => ?_
    rw [ClassTable.pin_apply, List.mem_cons]
    split
    · next hb => simp [hb]
    · next hb =>
      rw [h]
      simp [hb]

/-- A scope begins with no byte pinned in it. -/
theorem widen (h : Stacked table tables here around) (widening : Widening) :
    Stacked (table.widen widening) (table :: tables) [] (here :: around) :=
  inside h fun b => by simp [ClassTable.widen_eq_delimiter_iff]

/-- A scope leaves what was below it on the stack. -/
theorem leave {outer : ClassTable} (h : Stacked table (outer :: tables) here around) :
    ∃ pinned rest, around = pinned :: rest ∧ Stacked outer tables pinned rest := by
  cases h with
  | inside houter _ => exact ⟨_, _, rfl, houter⟩

end Stacked

/-! ### Every move -/

/-- Pinning alone changes the class table of a cursor that is kept. -/
theorem Session.Effect.classes_eq {session after : Session} {action : Action} {reply : Reply}
    (h : Effect session action reply after) (hkeeps : action.keepsCursor = true) :
    after.cursor.classes = session.cursor.classes ∨
      ∃ byte, action = .pin byte ∧ after.cursor.classes = session.cursor.classes.pin byte := by
  cases h with
  | scanned mode fold => exact Or.inl (session.cursor.classes_scan mode fold)
  | pinned byte => exact Or.inr ⟨byte, rfl, Cursor.classes_pin ..⟩
  | unparked => cases hkeeps
  | begun => cases hkeeps
  | _ => exact Or.inl rfl

/-- The tables of a moment and the levels fit together: there is one level
for each open scope, and each level knows the table to go back to. -/
def Moment.Stacked (moment : Moment) (levels : Levels) : Prop :=
  LineLexer.Stacked moment.session.cursor.classes
    (moment.outer.map fun session => session.cursor.classes) levels.here levels.around

namespace Moment.Stacked
variable {moment : Moment} {levels : Levels}

/-- At the start of a line there is one level, with the bytes that the
settings pin. -/
theorem start {settings : Settings} {bytes : List UInt8} {cursor : Cursor}
    (h : settings.cursor? bytes = some cursor) (tokens : List Token) :
    (Moment.start cursor tokens).Stacked (.start settings.pinned) := by
  obtain ⟨fresh, hfresh, rfl⟩ := Option.map_eq_some_iff.mp h
  obtain ⟨line, -, rfl⟩ := Option.map_eq_some_iff.mp hfresh
  exact .outside settings.pinned

/-- An action keeps the tables and the levels together, if it stays with
the cursor. -/
theorem act (h : moment.Stacked levels) {action : Action} (hkeeps : action.keepsCursor = true) :
    (moment.next (.act action)).Stacked (levels.next (.act action)) := by
  -- Only a pinned byte changes the levels, and then the table too.
  have hlevels : (∃ byte, action = .pin byte) ∨ levels.next (.act action) = levels := by
    cases action <;> first | exact Or.inl ⟨_, rfl⟩ | exact Or.inr rfl
  rcases hlevels with ⟨byte, rfl⟩ | hlevels
  · have hclasses : (moment.next (.act (.pin byte))).session.cursor.classes
        = moment.session.cursor.classes.pin byte := Cursor.classes_pin ..
    rw [Moment.Stacked, hclasses]
    exact h.pin byte
  · have hclasses : (moment.session.step (.act action)).2.cursor.classes
        = moment.session.cursor.classes := by
      rcases moment.session.step_act action with heq | ⟨reply, heffect⟩
      · rw [heq]
      · rcases heffect.classes_eq hkeeps with hsame | ⟨byte, rfl, -⟩
        · exact hsame
        · exact absurd (congrArg (fun levels => levels.here.length) hlevels) (by simp [Levels.next])
    rw [hlevels, Moment.Stacked, Moment.next, hclasses]
    exact h

/-- A move keeps the tables and the levels together, if it stays with the
cursor. -/
theorem next (h : moment.Stacked levels) {move : Move} (hkeeps : move.keepsCursor = true) :
    (moment.next move).Stacked (levels.next move) := by
  cases move with
  | act action => exact h.act hkeeps
  | enter widening =>
    have hclasses : (moment.next (.enter widening)).session.cursor.classes
        = moment.session.cursor.classes.widen widening := Cursor.classes_widen ..
    rw [Moment.Stacked, hclasses]
    exact h.widen widening
  | leave =>
    unfold Moment.Stacked at h
    rw [Moment.Stacked, Moment.next, Levels.next]
    cases houter : moment.outer with
    | nil =>
      -- With no scope open there is no level to go back to either.
      rw [houter] at h
      rw [h.eq_of_outside.2]
      dsimp only
      rw [houter]
      exact h
    | cons session outer =>
      rw [houter] at h
      obtain ⟨pinned, rest, haround, hbelow⟩ := h.leave
      rw [haround]
      exact hbelow

/-- Moves keep the tables and the levels together, if all of them stay
with the cursor. The proof is by induction on the moves. -/
theorem run (h : moment.Stacked levels) {moves : List Move}
    (hkeeps : ∀ move ∈ moves, move.keepsCursor = true) :
    (moment.run moves).Stacked (levels.run moves) := by
  induction moves generalizing moment levels with
  | nil => exact h
  | cons move moves ih =>
    exact ih (h.next (hkeeps move List.mem_cons_self))
      fun other hother => hkeeps other (List.mem_cons_of_mem _ hother)

end Moment.Stacked

/-! ### At every moment -/

/-- What holds of the class table at a moment, if the bytes have been
pinned at these levels. -/
structure Moment.Disciplined (moment : Moment) (levels : Levels) : Prop where
  /-- Outside all scopes the table is the standard one with the bytes
  pinned there, and no widening is left of it. -/
  outside : moment.outer = [] →
    moment.session.cursor.classes = ClassTable.standard.pinAll levels.here
  /-- Behind a scope the table is what it was before, whatever has
  happened inside, and all else is what the scope has left. -/
  behind : ∀ widening body, Balanced body →
    let inner := (moment.next (.enter widening)).run body
    moment.run (.enter widening :: (body ++ [.leave]))
      = { session := inner.session.withCursor
            { inner.session.cursor with classes := moment.session.cursor.classes }
          outer := moment.outer }
  /-- The delimiters are the standard ones and the bytes pinned at a
  level that is still open. -/
  delimiters : ∀ b, moment.session.cursor.classes b = .delimiter ↔
    ByteClass.ofByte b = .delimiter ∨ levels.Pins b
  /-- Entering a scope makes no byte a delimiter and unmakes none. -/
  widening : ∀ widening b,
    (moment.next (.enter widening)).session.cursor.classes b = .delimiter ↔
      moment.session.cursor.classes b = .delimiter

/-- Whatever is done to the cursor of a line, its class table is in order,
in every scope and outside. A scope that is left gives the table back,
also behind actions that were refused, and a byte that has been pinned
stays a delimiter at its level. -/
theorem Moment.disciplined_run {settings : Settings} {bytes : List UInt8} {cursor : Cursor}
    (h : settings.cursor? bytes = some cursor) (tokens : List Token) (moves : List Move)
    (hkeeps : ∀ move ∈ moves, move.keepsCursor = true) :
    ((Moment.start cursor tokens).run moves).Disciplined
      ((Levels.start settings.pinned).run moves) := by
  have hstacked := (Moment.Stacked.start h tokens).run hkeeps
  generalize (Moment.start cursor tokens).run moves = moment at hstacked
  generalize (Levels.start settings.pinned).run moves = levels at hstacked
  refine ⟨fun houter => ?_, fun widening body hbody => hbody.run_within moment widening,
    hstacked.delimiter_iff, fun widening b => ?_⟩
  · rw [Moment.Stacked, houter] at hstacked
    exact hstacked.eq_of_outside.1
  · have hclasses : (moment.next (.enter widening)).session.cursor.classes
        = moment.session.cursor.classes.widen widening := Cursor.classes_widen ..
    rw [hclasses]
    exact ClassTable.widen_eq_delimiter_iff ..

/-- With the colon pinned, the letter `x` is pinned in a scope of words.
In a scope of real numbers inside that, a push back is refused and the
number of `a1.5x` is scanned. Behind both scopes `x` is no delimiter any
more, and `y` is pinned. -/
theorem Moment.disciplined_of_nested :
    ∃ cursor, (Settings.mk true [0x3a] .plain).cursor? [0x61, 0x31, 0x2e, 0x35, 0x78]
        = some cursor ∧
      let moves : List Move := [.enter .word, .act (.pin 0x78), .act .consume, .enter .real,
        .act .pushBack, .act (.scan .real true), .leave, .leave, .act (.pin 0x79)]
      ((Moment.start cursor []).run moves).Disciplined ⟨[0x79, 0x3a], []⟩ ∧
        ((Moment.start cursor []).run moves).session.cursor.classes
          = ClassTable.standard.pinAll [0x79, 0x3a] := by
  have h : (Settings.mk true [0x3a] .plain).cursor? [0x61, 0x31, 0x2e, 0x35, 0x78] = some _ := rfl
  have hdisciplined := Moment.disciplined_run h [] [.enter .word, .act (.pin 0x78),
    .act .consume, .enter .real, .act .pushBack, .act (.scan .real true), .leave, .leave,
    .act (.pin 0x79)] (by decide)
  exact ⟨_, rfl, hdisciplined, hdisciplined.outside rfl⟩

/-! ### Behind commands -/

/-- The bytes that a command pins for all that comes behind it. What is
pinned in a scope is not among them. -/
def Command.pinned : Command → List UInt8
  | .act (.pin byte) => [byte]
  | _ => []

/-- A command outside all scopes adds the bytes that it pins to those
pinned before, and changes nothing else in the class table. -/
theorem Session.classes_step {session : Session} {here : List UInt8}
    (h : session.cursor.classes = ClassTable.standard.pinAll here) {command : Command}
    (hkeeps : ∀ action, command = .act action → action.keepsCursor = true) :
    (session.step command).2.cursor.classes
      = ClassTable.standard.pinAll (command.pinned ++ here) := by
  cases command with
  | widened widening body => exact h
  | act action =>
    have hstacked : (Moment.mk session []).Stacked ⟨here, []⟩ := by
      rw [Moment.Stacked, h]
      exact .outside here
    have hlevels : Levels.next ⟨here, []⟩ (.act action)
        = ⟨(Command.act action).pinned ++ here, []⟩ := by
      cases action <;> rfl
    have hnext := hstacked.act (hkeeps action rfl)
    rw [hlevels] at hnext
    exact hnext.eq_of_outside.1

/-- After any commands the class table of a cursor is the standard one with
the bytes pinned that the settings pin, and those that the commands have
pinned outside their scopes. -/
theorem Session.classes_after {settings : Settings} {bytes : List UInt8} {cursor : Cursor}
    (h : settings.cursor? bytes = some cursor) (tokens : List Token) (commands : List Command)
    (hkeeps : ∀ action, Command.act action ∈ commands → action.keepsCursor = true) :
    ((Moment.start cursor tokens).session.after commands).cursor.classes
      = ClassTable.standard.pinAll
          ((commands.reverse.flatMap Command.pinned) ++ settings.pinned) := by
  have hstart : (Moment.start cursor tokens).session.cursor.classes
      = ClassTable.standard.pinAll settings.pinned :=
    (Moment.Stacked.start h tokens).eq_of_outside.1
  generalize (Moment.start cursor tokens).session = session at hstart ⊢
  generalize settings.pinned = here at hstart ⊢
  induction commands generalizing session here with
  | nil => exact hstart
  | cons command rest ih =>
    have hstep := Session.classes_step hstart
      fun action heq => hkeeps action (heq ▸ List.mem_cons_self)
    have hrest := ih (fun action hmem => hkeeps action (List.mem_cons_of_mem _ hmem)) _ _ hstep
    rw [List.reverse_cons, List.flatMap_append, List.flatMap_singleton, List.append_assoc]
    exact hrest

end LineLexer
