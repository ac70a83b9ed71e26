import LineLexer.Proofs.SignAndRun
import LineLexer.Proofs.Sound

/-!
# `LineLexer.Proofs.Tables`: class tables that can be reached

A session makes class tables in three ways: a new line has the first
one, a byte is pinned, and a scope widens the table. Any other table is
one that it has had before. What holds of the first table and is kept
by the two changes therefore holds of every table of a history.

* `ClassTable.Lasting`: a property of tables that pinning and widening
  keep.
* `Session.Tables`, `Moment.Tables`: a property of all tables of a
  session and of the sessions from which scopes have been entered.
* `Moment.Tables.run`, `Moment.Tables.after`: a lasting property holds at
  every moment of a history and after every list of commands.
* `ClassTable.SpellsNumbers`: the digits of a table are bytes with
  which a number can begin; this lasts.
-/

set_option autoImplicit false

namespace LineLexer

open Ascii

/-! ### Lasting properties -/

/-- A property of class tables that lasts: the first table has it, and
neither pinning a byte nor widening the table takes it away. -/
structure ClassTable.Lasting (P : ClassTable → Prop) : Prop where
  standard : P .standard
  pin : ∀ table byte, P table → P (table.pin byte)
  widen : ∀ table widening, P table → P (table.widen widening)

/-- A table with a lasting property still has it after several bytes have
been pinned. -/
theorem ClassTable.Lasting.pinAll {P : ClassTable → Prop} (hP : Lasting P) {table : ClassTable}
    (h : P table) (bytes : List UInt8) : P (table.pinAll bytes) := by
  rw [pinAll_eq_foldl]
  induction bytes generalizing table with
  | nil => exact h
  | cons byte bytes ih => exact ih (hP.pin table byte h)

/-- The class table of the cursor that settings make for a line has every
lasting property. -/
theorem ClassTable.Lasting.of_cursor? {P : ClassTable → Prop} (hP : Lasting P)
    {settings : Settings} {bytes : List UInt8} {cursor : Cursor}
    (h : settings.cursor? bytes = some cursor) : P cursor.classes := by
  obtain ⟨fresh, hfresh, rfl⟩ := Option.map_eq_some_iff.mp h
  obtain ⟨line, -, rfl⟩ := Option.map_eq_some_iff.mp hfresh
  exact hP.pinAll hP.standard settings.pinned

/-- A table with a lasting property has it in every mode. -/
theorem ClassTable.Lasting.classes {P : ClassTable → Prop} (hP : Lasting P) {table : ClassTable}
    (h : P table) (mode : Mode) : P (mode.classes table) := by
  cases mode with
  | plain => exact h
  | real => exact hP.widen table .real h
  | word => exact hP.widen table .word h
  | rest => exact h

/-! ### Histories -/

/-- A property holds of all tables that a session can go on with: that of
its cursor and those of the cursors that are parked. -/
structure Session.Tables (P : ClassTable → Prop) (session : Session) : Prop where
  cursor : P session.cursor.classes
  parked : ∀ saved ∈ session.parked, P saved.2.classes

/-- A property holds of all tables of a moment: those of the session, and
those to which its scopes go back. -/
structure Moment.Tables (P : ClassTable → Prop) (moment : Moment) : Prop where
  session : moment.session.Tables P
  outer : ∀ session ∈ moment.outer, P session.cursor.classes

section History
variable {P : ClassTable → Prop}

/-- If all tables of a session have a lasting property, they have it after
every action. -/
theorem Session.Tables.effect (hP : ClassTable.Lasting P) {session after : Session}
    (h : session.Tables P) {action : Action} {reply : Reply}
    (heffect : Effect session action reply after) : after.Tables P := by
  -- Pinning and a new line change the table; all else keeps or copies it.
  cases heffect with
  | ignored | notBegun => exact h
  | scanned mode fold =>
    refine ⟨?_, h.parked⟩
    show P (session.cursor.scan mode fold).2.classes
    rw [Cursor.classes_scan]
    exact h.cursor
  | pushedBack | moved | taken | saved | restored => exact ⟨h.cursor, h.parked⟩
  | pinned byte =>
    refine ⟨?_, h.parked⟩
    show P (session.cursor.pin byte).classes
    rw [Cursor.classes_pin]
    exact hP.pin _ byte h.cursor
  | parked name =>
    refine ⟨h.cursor, fun saved hsaved => ?_⟩
    cases hsaved with
    | head => exact h.cursor
    | tail _ hmem => exact h.parked saved hmem
  | unparked hname => exact ⟨h.parked _ (mem_of_lookup hname), h.parked⟩
  | begun hcursor =>
    obtain ⟨line, -, rfl⟩ := Option.map_eq_some_iff.mp hcursor
    exact ⟨hP.standard, h.parked⟩

/-- If the table of a cursor has a property, all tables of the first
moment of its history have it. -/
theorem Moment.Tables.start {cursor : Cursor} (h : P cursor.classes) (tokens : List Token) :
    (Moment.start cursor tokens).Tables P where
  session := ⟨h, fun _ hmem => absurd hmem List.not_mem_nil⟩
  outer := fun _ hmem => absurd hmem List.not_mem_nil

/-- If all tables of a moment have a lasting property, they have it after
every move. -/
theorem Moment.Tables.next (hP : ClassTable.Lasting P) {moment : Moment} (h : moment.Tables P)
    (move : Move) : (moment.next move).Tables P := by
  cases move with
  | act action =>
    refine ⟨?_, h.outer⟩
    rcases moment.session.step_act action with heq | ⟨reply, heffect⟩
    · rw [Moment.next, heq]
      exact h.session
    · exact h.session.effect hP heffect
  | enter widening =>
    -- The table outside stays among those to which the scopes go back.
    refine ⟨⟨?_, h.session.parked⟩, ?_⟩
    · show P (moment.session.cursor.widen widening).classes
      rw [Cursor.classes_widen]
      exact hP.widen _ widening h.session.cursor
    · intro session hsession
      cases hsession with
      | head => exact h.session.cursor
      | tail _ hmem => exact h.outer session hmem
  | leave =>
    rw [Moment.next]
    split
    · exact h
    · next session outer houter =>
      -- The table that comes back was among those of the scopes.
      refine ⟨⟨h.outer session (by rw [houter]; exact List.mem_cons_self), h.session.parked⟩, ?_⟩
      intro other hother
      exact h.outer other (by rw [houter]; exact List.mem_cons_of_mem _ hother)

/-- A lasting property holds of all tables after all moves, if it holds of
them before. -/
theorem Moment.Tables.run (hP : ClassTable.Lasting P) {moment : Moment} (h : moment.Tables P)
    (moves : List Move) : (moment.run moves).Tables P :=
  moment.run_induction moves h fun _ move hmoment => hmoment.next hP move

/-- A lasting property holds of all tables after every list of commands,
if the table of the cursor has it at first. -/
theorem Moment.Tables.after (hP : ClassTable.Lasting P) {cursor : Cursor} (h : P cursor.classes)
    (tokens : List Token) (commands : List Command) :
    ((Moment.start cursor tokens).session.after commands).Tables P :=
  (Session.after_induction (p := Moment.Tables P) (.start h tokens)
    (fun _ move hmoment => hmoment.next hP move) commands).session

end History

/-! ### Digits -/

/-- Every byte of class digit is one of those with class digit in real
mode: the decimal digits, the point and the underscore. -/
def ClassTable.SpellsNumbers (table : ClassTable) : Prop :=
  ∀ b, table b = .digit → Mode.real.classes .standard b = .digit

/-- No pinning and no widening gives another byte the class digit, so the
digits of every table of a history are those with which a number can
begin. -/
theorem ClassTable.lasting_spellsNumbers : Lasting SpellsNumbers where
  standard b hb := by
    rw [Mode.classes_real]
    split
    · rfl
    · exact hb
  pin table byte h b hb := by
    rw [pin_apply] at hb
    split at hb
    · cases hb
    · exact h b hb
  widen table widening h b hb := by
    rw [widen_apply] at hb
    split at hb
    · cases hlends : widening.lends b with
      | none => exact h b (by simpa [hlends] using hb)
      | some c =>
        obtain rfl : c = .digit := by simpa [hlends] using hb
        -- Digits are lent for real numbers only.
        cases widening with
        | real =>
          rw [Widening.lends] at hlends
          split at hlends
          · next hlent => rw [Mode.classes_real, if_pos hlent]
          · cases hlends
        | word =>
          rw [Widening.lends] at hlends
          split at hlends <;> cases hlends
    · exact h b hb

end LineLexer
