import LineLexer.Proofs.Classes
import LineLexer.Proofs.History
import LineLexer.Tokens

/-!
# `LineLexer.Proofs.Sound`: cursors that can be reached

Whatever is done to a cursor, it stays in its line, and so does the
position to which it would go back; and no byte gets the class of an
operator that spells none.

* `Cursor.Sound`, `Session.Sound`, `Moment.Sound`: what holds of every
  cursor, of all that a session has saved, and of the sessions from
  which scopes have been entered.
* `Session.Sound.effect`: every action keeps it.
* `Moment.Sound.run`: every moment of the history of a line's cursor is
  sound.
* `Moment.Sound.after`: every session that a list of commands leads to is
  sound.
-/

set_option autoImplicit false

namespace LineLexer

/-- A cursor whose positions are in its line, and whose operators are
operators. -/
structure Cursor.Sound (cursor : Cursor) : Prop where
  position_le : cursor.position ≤ cursor.line.length
  lastStart_le : ∀ start ∈ cursor.lastStart, start ≤ cursor.line.length
  spells : cursor.classes.SpellsOperators

/-- A session whose cursors are sound, and whose saved positions lie in
their lines. -/
structure Session.Sound (session : Session) : Prop where
  cursor : session.cursor.Sound
  checkpoints : ∀ saved ∈ session.checkpoints, saved.2.position ≤ saved.2.line.length
  parked : ∀ saved ∈ session.parked, saved.2.Sound

/-- A moment whose session is sound, and the sessions from which its
scopes were entered too. -/
structure Moment.Sound (moment : Moment) : Prop where
  session : moment.session.Sound
  outer : ∀ session ∈ moment.outer, session.cursor.classes.SpellsOperators

/-- What is found under a name is among what has been saved. -/
theorem mem_of_lookup {α : Type} {saved : List (String × α)} {name : String} {found : α}
    (h : saved.lookup name = some found) : (name, found) ∈ saved := by
  obtain ⟨before, later, rfl, -⟩ := List.lookup_eq_some_iff.mp h
  exact List.mem_append_right before List.mem_cons_self

namespace Cursor.Sound
variable {cursor : Cursor}

/-- The cursor at the start of a line is sound. -/
theorem ofLine (line : Line) : (Cursor.ofLine line).Sound where
  position_le := Nat.zero_le _
  lastStart_le := by
    rintro start hstart
    cases hstart
  spells := ClassTable.spellsOperators_standard

/-- The cursor of any settings is sound at the start of a line, as pinning
makes no operators. -/
theorem of_cursor? {settings : Settings} {bytes : List UInt8}
    (h : settings.cursor? bytes = some cursor) : cursor.Sound := by
  obtain ⟨fresh, hfresh, rfl⟩ := Option.map_eq_some_iff.mp h
  obtain ⟨line, -, rfl⟩ := Option.map_eq_some_iff.mp hfresh
  have hsound := ofLine line
  exact { hsound with spells := hsound.spells.pinAll settings.pinned }

/-- A scan leaves a cursor sound. -/
theorem scan (h : cursor.Sound) (mode : Mode) (fold : Bool) :
    (cursor.scan mode fold).2.Sound := by
  have hclasses := cursor.classes_scan mode fold
  cases hcut : cursor.cut? mode with
  | none =>
    have hscan : cursor.scan mode fold = (none, cursor.toEnd) := by rw [Cursor.scan, hcut]
    rw [hscan]
    exact ⟨Nat.le_refl _, h.lastStart_le, h.spells⟩
  | some cut =>
    have htoken : (cursor.scan mode fold).1 ≠ none := by
      rw [Ne, scan_eq_none_iff, hcut]
      exact Option.some_ne_none cut
    obtain ⟨token, htoken⟩ := Option.ne_none_iff_exists'.mp htoken
    have hstart : (cursor.scan mode fold).2.lastStart = some cursor.position := by
      rw [Cursor.scan, hcut]
    refine ⟨position_le_of_scan (Prod.ext htoken rfl), ?_, hclasses ▸ h.spells⟩
    intro start hlast
    rw [hstart] at hlast
    cases hlast
    rw [line_scan]
    exact h.position_le

/-- A move to a position of the line leaves a cursor sound, whether a
token can be given back behind it or not. -/
theorem move (h : cursor.Sound) {position : Nat} {lastStart : Option Nat}
    (hposition : position ≤ cursor.line.length)
    (hstart : lastStart = cursor.lastStart ∨ lastStart = none) :
    Cursor.Sound { cursor with position, lastStart } where
  position_le := hposition
  lastStart_le := by
    rcases hstart with rfl | rfl
    · exact h.lastStart_le
    · rintro start hlast
      cases hlast
  spells := h.spells

/-- A change of the class table leaves a cursor sound if it makes no
operators. -/
theorem withClasses (h : cursor.Sound) {classes : ClassTable} (hspells : classes.SpellsOperators) :
    (cursor.withClasses classes).Sound :=
  ⟨h.position_le, h.lastStart_le, hspells⟩

end Cursor.Sound

namespace Session.Sound
variable {session after : Session}

/-- Another sound cursor leaves a session sound. -/
theorem withCursor (h : session.Sound) {cursor : Cursor} (hcursor : cursor.Sound) :
    (session.withCursor cursor).Sound :=
  { h with cursor := hcursor }

/-- Every successful action leaves a session sound. There is one case for
each effect that an action can have. -/
theorem effect (h : session.Sound) {action : Action} {reply : Reply}
    (heffect : Effect session action reply after) : after.Sound := by
  cases heffect with
  | ignored => exact h
  | scanned mode fold => exact { h with cursor := h.cursor.scan mode fold }
  | pushedBack hstart =>
    exact h.withCursor (h.cursor.move (h.cursor.lastStart_le _ hstart) (Or.inr rfl))
  | moved _ _ hposition =>
    -- A position that an action sets by itself is the old one or lies in the line.
    have hle := hposition.elim (fun heq => heq ▸ h.cursor.position_le) id
    exact h.withCursor (h.cursor.move hle (Or.inl rfl))
  | pinned byte =>
    refine h.withCursor ⟨h.cursor.position_le, h.cursor.lastStart_le, ?_⟩
    rw [Cursor.classes_pin]
    exact h.cursor.spells.pin byte
  | taken => exact h.withCursor ⟨h.cursor.position_le, h.cursor.lastStart_le, h.cursor.spells⟩
  | saved name =>
    refine { h with checkpoints := fun saved hsaved => ?_ }
    cases hsaved with
    | head => exact h.cursor.position_le
    | tail _ hmem => exact h.checkpoints saved hmem
  | restored hname hline =>
    -- The checkpoint was sound on its own line, which is the cursor's.
    have hle := h.checkpoints _ (mem_of_lookup hname)
    rw [hline] at hle
    exact h.withCursor (h.cursor.move hle (Or.inr rfl))
  | parked name =>
    refine { h with parked := fun saved hsaved => ?_ }
    cases hsaved with
    | head => exact h.cursor
    | tail _ hmem => exact h.parked saved hmem
  | unparked hname => exact h.withCursor (h.parked _ (mem_of_lookup hname))
  | notBegun => exact h
  | begun hcursor =>
    obtain ⟨line, -, rfl⟩ := Option.map_eq_some_iff.mp hcursor
    exact { h with cursor := .ofLine line }

/-- An action leaves a session sound, refused or not. -/
theorem step (h : session.Sound) (action : Action) : (session.step (.act action)).2.Sound := by
  rcases session.step_act action with heq | ⟨reply, heffect⟩
  · rw [heq]
    exact h
  · exact h.effect heffect

end Session.Sound

namespace Moment

/-- The first moment is sound if the cursor is. -/
theorem Sound.start {cursor : Cursor} (h : cursor.Sound) (tokens : List Token) :
    (Moment.start cursor tokens).Sound where
  session :=
    { cursor := h
      checkpoints := fun _ hmem => absurd hmem List.not_mem_nil
      parked := fun _ hmem => absurd hmem List.not_mem_nil }
  outer := fun _ hmem => absurd hmem List.not_mem_nil

/-- Every move keeps a moment sound. -/
theorem Sound.next {moment : Moment} (h : moment.Sound) (move : Move) :
    (moment.next move).Sound := by
  cases move with
  | act action => exact { h with session := h.session.step action }
  | enter widening =>
    refine ⟨h.session.withCursor ⟨h.session.cursor.position_le, h.session.cursor.lastStart_le, ?_⟩,
      ?_⟩
    · rw [Cursor.classes_widen]
      exact h.session.cursor.spells.widen widening
    · intro session hsession
      cases hsession with
      | head => exact h.session.cursor.spells
      | tail _ hmem => exact h.outer session hmem
  | leave =>
    rw [Moment.next]
    split
    · exact h
    · next session outer houter =>
      have hspells := h.outer session (by rw [houter]; exact List.mem_cons_self)
      refine ⟨h.session.withCursor (h.session.cursor.withClasses hspells), fun other hother => ?_⟩
      exact h.outer other (by rw [houter]; exact List.mem_cons_of_mem _ hother)

/-- A sound moment is sound after all moves, those that were refused
included. -/
theorem Sound.run {moment : Moment} (h : moment.Sound) (moves : List Move) :
    (moment.run moves).Sound :=
  moment.run_induction moves h fun _ move hmoment => hmoment.next move

/-- Commands keep the session of a sound cursor sound, also if they are
refused in the middle of a scope. -/
theorem Sound.after {cursor : Cursor} (h : cursor.Sound) (tokens : List Token)
    (commands : List Command) : ((Moment.start cursor tokens).session.after commands).Sound :=
  (Session.after_induction (p := Moment.Sound) (.start h tokens)
    (fun _ move hmoment => hmoment.next move) commands).session

end Moment

end LineLexer
