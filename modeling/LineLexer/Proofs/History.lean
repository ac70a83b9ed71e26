import LineLexer.Session

/-!
# `LineLexer.Proofs.History`: what can happen to a session

A property of every state that a session can reach has to hold between
any two of its actions, in a scope as well as outside, and no matter
who catches a refusal: a command that is refused ends the scopes around
it, but a caller may as well go on inside them. So a history is a flat
list of moves, and a moment of it is a session together with the
sessions from which its open scopes were entered.

* `Moment.run`: the moment that a list of moves leads to.
* `Balanced`: moves that leave every scope that they enter, and no
  other; `outer_run` says that no other scope is then touched.
* `Session.after`: the session that a list of commands leads to.
* `Session.leads_after`: what a session does with its commands it does by
  balanced moves.
* `Session.after_induction`: what every move keeps holds after every list
  of commands.
* `Session.Effect`: all that an action can do to a session, from which
  the invariants of a history are derived.
-/

set_option autoImplicit false

namespace LineLexer

/-- Something that happens to a session: an action, or that a scope is
entered or left. A history is a list of these, so that a moment inside a
scope is a moment like any other. -/
inductive Move where
  /-- An action, which may be refused. -/
  | act (action : Action)
  /-- A widened scope is entered. -/
  | enter (widening : Widening)
  /-- The innermost scope is left, if there is one. -/
  | leave
  deriving DecidableEq, Repr

/-- Whether an action goes on with the cursor that it finds. Two actions
make another cursor the current one. -/
def Action.keepsCursor : Action → Bool
  | .unpark _ | .beginLine _ => false
  | _ => true

/-- Whether a move goes on with the cursor that it finds. Scopes do. -/
def Move.keepsCursor : Move → Bool
  | .act action => action.keepsCursor
  | .enter _ | .leave => true

/-- A session between two moves, with the sessions to which its scopes
will return. -/
structure Moment where
  session : Session
  /-- The sessions from which the open scopes were entered, the
  innermost first. -/
  outer : List Session

namespace Moment

/-- The first moment of a history: a cursor, and any tokens, so that
the operator of any token can be resolved. -/
def start (cursor : Cursor) (tokens : List Token) : Moment :=
  { session := { Session.ofCursor cursor with tokens }, outer := [] }

/-- The moment after a move. Nothing comes of an action that is
refused, or if there is no scope to leave. -/
def next (moment : Moment) : Move → Moment
  | .act action => { moment with session := (moment.session.step (.act action)).2 }
  | .enter widening =>
    { session := moment.session.enter widening, outer := moment.session :: moment.outer }
  | .leave =>
    match moment.outer with
    | [] => moment
    | session :: outer => { session := moment.session.leave session, outer }

/-- The moment after some moves, from the first to the last. Leaving a
scope where none is open changes nothing. -/
def run (moment : Moment) (moves : List Move) : Moment := moves.foldl next moment

section Run
variable (moment : Moment) (move : Move) (moves more : List Move)

@[simp] theorem run_nil : moment.run [] = moment := rfl

@[simp] theorem run_cons : moment.run (move :: moves) = (moment.next move).run moves := rfl

@[simp] theorem run_append : moment.run (moves ++ more) = (moment.run moves).run more :=
  List.foldl_append

/-- What holds at first and is kept by every move holds after all
moves. -/
theorem run_induction {p : Moment → Prop} (h : p moment)
    (hnext : ∀ moment move, p moment → p (moment.next move)) : p (moment.run moves) := by
  induction moves generalizing moment with
  | nil => exact h
  | cons move moves ih => exact ih (moment.next move) (hnext moment move h)

end Run

end Moment

/-! ### Scopes -/

/-- Moves that leave the scopes that they enter, and no others. The moves
of a list of commands are balanced. -/
inductive Balanced : List Move → Prop where
  | nil : Balanced []
  | act {action : Action} {rest : List Move} (hrest : Balanced rest) :
    Balanced (.act action :: rest)
  | scope {widening : Widening} {body rest : List Move} (hbody : Balanced body)
    (hrest : Balanced rest) : Balanced (.enter widening :: (body ++ .leave :: rest))

namespace Balanced

/-- A single action is balanced. -/
theorem single (action : Action) : Balanced [.act action] := act nil

/-- A single scope with balanced moves inside is balanced. -/
theorem within (widening : Widening) {body : List Move} (h : Balanced body) :
    Balanced (.enter widening :: (body ++ [.leave])) := scope h nil

/-- Balanced moves after balanced moves are balanced. -/
theorem append {moves more : List Move} (h : Balanced moves) (hmore : Balanced more) :
    Balanced (moves ++ more) := by
  induction h with
  | nil => exact hmore
  | act _ ih => exact act ih
  | scope hbody _ _ ih =>
    rw [List.cons_append, List.append_assoc, List.cons_append]
    exact scope hbody ih

/-- Balanced moves leave the scopes that were open before as they
are. -/
theorem outer_run {moves : List Move} (h : Balanced moves) (moment : Moment) :
    (moment.run moves).outer = moment.outer := by
  induction h generalizing moment with
  | nil => rfl
  | act _ ih => exact ih _
  | scope _ _ ihbody ih =>
    rw [Moment.run_cons, Moment.run_append, Moment.run_cons, ih]
    -- The body leaves the session from before on top, and `leave` takes
    -- off no more than that.
    generalize hinner : (moment.next (.enter _)).run _ = inner
    have houter : inner.outer = moment.session :: moment.outer := by
      rw [← hinner, ihbody]
      rfl
    rw [Moment.next, houter]

/-- A scope with balanced moves inside leads to the session that those
moves lead to, left for the session from which the scope was entered. -/
theorem run_within {body : List Move} (h : Balanced body) (moment : Moment)
    (widening : Widening) :
    moment.run (.enter widening :: (body ++ [.leave]))
      = { session := ((moment.next (.enter widening)).run body).session.leave moment.session
          outer := moment.outer } := by
  have houter := h.outer_run (moment.next (.enter widening))
  rw [Moment.run_cons, Moment.run_append]
  generalize (moment.next (.enter widening)).run body = inner at houter ⊢
  rw [Moment.run_cons, Moment.run_nil, Moment.next, houter]
  rfl

end Balanced

/-! ### What an action can do -/

namespace Session

/-- The action only asks, or names what is not known. Neither changes the
session. -/
def Ignores (session : Session) : Action → Prop
  | .peek _ | .line | .remaining | .classes | .classesOf _ | .diagnostics => True
  | .restore name => session.checkpoints.lookup name = none
  | .unpark name => session.parked.lookup name = none
  | _ => False

/-- The action can move the cursor within its line, and changes nothing
else. -/
def Moves : Action → Prop
  | .consume | .read | .resolve .. => True
  | _ => False

/-- What a successful action answers and makes of the session. Everything
that an action can do is said here once, and what actions keep is shown
from it. -/
inductive Effect (session : Session) : Action → Reply → Session → Prop where
  | ignored {action : Action} {reply : Reply} (h : session.Ignores action) :
    Effect session action reply session
  | scanned (mode : Mode) (fold : Bool) :
    Effect session (.scan mode fold) (.token (session.cursor.scan mode fold).1)
      { session with
        cursor := (session.cursor.scan mode fold).2
        tokens := session.tokens ++ (session.cursor.scan mode fold).1.toList }
  | pushedBack {start : Nat} (h : session.cursor.lastStart = some start) :
    Effect session .pushBack .done
      (session.withCursor { session.cursor with position := start, lastStart := none })
  | moved {action : Action} {reply : Reply} (position : Nat) (haction : Moves action)
    (h : position = session.cursor.position ∨ position ≤ session.cursor.line.length) :
    Effect session action reply (session.withCursor { session.cursor with position })
  | pinned (byte : UInt8) :
    Effect session (.pin byte) .done (session.withCursor (session.cursor.pin byte))
  | taken :
    Effect session .takeDiagnostics (.diagnostics session.cursor.diagnostics)
      (session.withCursor session.cursor.clearDiagnostics)
  | saved (name : String) :
    Effect session (.checkpoint name) (.position session.cursor.position)
      { session with
        checkpoints := (name, session.cursor.checkpoint) :: session.checkpoints }
  | restored {name : String} {checkpoint : Checkpoint}
    (hname : session.checkpoints.lookup name = some checkpoint)
    (hline : checkpoint.line = session.cursor.line) :
    Effect session (.restore name) .done
      (session.withCursor
        { session.cursor with position := checkpoint.position, lastStart := none })
  | parked (name : String) :
    Effect session (.park name) .done
      { session with parked := (name, session.cursor) :: session.parked }
  | unparked {name : String} {cursor : Cursor}
    (hname : session.parked.lookup name = some cursor) :
    Effect session (.unpark name) .done (session.withCursor cursor)
  | notBegun (bytes : List UInt8) :
    Effect session (.beginLine bytes) (.lineBegun false) session
  | begun {bytes : List UInt8} {cursor : Cursor}
    (h : Cursor.ofBytes? session.nextSerial bytes = some cursor) :
    Effect session (.beginLine bytes) (.lineBegun true)
      { session with cursor, nextSerial := session.nextSerial + 1 }

/-- Passing over a byte leaves the cursor where it is or moves it within
its line, and changes nothing else. -/
theorem consume_eq (cursor : Cursor) :
    ∃ position, (position = cursor.position ∨ position ≤ cursor.line.length) ∧
      cursor.consume = { cursor with position } := by
  rw [Cursor.consume]
  split
  · exact ⟨cursor.position, Or.inl rfl, rfl⟩
  · next hend =>
    refine ⟨cursor.position + 1, Or.inr ?_, rfl⟩
    have hlt : cursor.position < cursor.line.length := by simpa [Cursor.atEnd] using hend
    omega

/-- Resolving an operator leaves the cursor where it is or moves it within
its line, and changes nothing else. -/
theorem resolveOperator_eq {cursor after : Cursor} {token resolved : Token} {code : Nat}
    (h : cursor.resolveOperator token = .ok (code, resolved, after)) :
    ∃ position, (position = cursor.position ∨ position ≤ cursor.line.length) ∧
      after = { cursor with position } := by
  rw [Cursor.resolveOperator] at h
  dsimp only at h
  split at h
  · cases h
    exact ⟨_, Or.inl rfl, rfl⟩
  -- Only a text that is longer than its operator moves the cursor.
  · split at h
    · rw [Cursor.seek] at h
      split at h
      · next hle =>
        cases h
        exact ⟨_, Or.inr hle, rfl⟩
      · cases h
    · cases h
      exact ⟨_, Or.inl rfl, rfl⟩

/-- If mapping a function over a result succeeds, the result has
succeeded, with a value from which the function makes the new one. -/
theorem ok_of_map_ok {ε α β : Type} {result : Except ε α} {f : α → β} {b : β}
    (h : result.map f = .ok b) : ∃ a, result = .ok a ∧ f a = b := by
  cases result with
  | error fault => cases h
  | ok a =>
    cases h
    exact ⟨a, rfl, rfl⟩

/-- Passing over a byte is an action that moves the cursor within its line
and changes nothing else. -/
theorem effect_of_consume {session : Session} {action : Action} {reply : Reply}
    (haction : Moves action) :
    Effect session action reply (session.withCursor session.cursor.consume) := by
  obtain ⟨position, hposition, heq⟩ := consume_eq session.cursor
  rw [heq]
  exact .moved position haction hposition

/-- A return to a saved position that succeeds is made on the line that
the position is on. A name that is not known changes nothing. -/
theorem effect_of_restore {session after : Session} {name : String} {reply : Reply}
    (h : session.act (.restore name) = .ok (reply, after)) :
    Effect session (.restore name) reply after := by
  rw [act] at h
  split at h
  · next checkpoint hname =>
    rw [Cursor.restore] at h
    split at h
    · next hline =>
      cases h
      exact .restored hname hline
    · cases h
  · next hname =>
    cases h
    exact .ignored hname

/-- Resolving an operator that succeeds moves the cursor within its line
and changes nothing else. A token that is not there changes nothing. -/
theorem effect_of_resolve {session after : Session} {index : Nat} {text : Option String}
    {start : Option Nat} {reply : Reply}
    (h : session.act (.resolve index text start) = .ok (reply, after)) :
    Effect session (.resolve index text start) reply after := by
  rw [act] at h
  split at h
  · obtain ⟨⟨code, resolved, cursor⟩, hresolved, heq⟩ := ok_of_map_ok h
    cases heq
    obtain ⟨position, hposition, rfl⟩ := resolveOperator_eq hresolved
    exact .moved position trivial hposition
  · cases h
    exact .moved session.cursor.position trivial (Or.inl rfl)

/-- A successful action has one of the effects that are listed, with the
reply that is listed for it. No invariant has to look at the actions
again. -/
theorem effect_of_act {session after : Session} {action : Action} {reply : Reply}
    (h : session.act action = .ok (reply, after)) : Effect session action reply after := by
  -- Most actions have one outcome; the others are refused or leave things as they are.
  cases action with
  | scan mode fold =>
    cases h
    exact .scanned mode fold
  | pushBack =>
    rw [act, Cursor.pushBack] at h
    split at h
    · next hstart =>
      cases h
      exact .pushedBack hstart
    · cases h
  | consume | read =>
    cases h
    exact effect_of_consume trivial
  | peek | line | remaining | classes | classesOf | diagnostics =>
    cases h
    exact .ignored trivial
  | pin byte =>
    cases h
    exact .pinned byte
  | takeDiagnostics =>
    cases h
    exact .taken
  | checkpoint name =>
    cases h
    exact .saved name
  | restore name => exact effect_of_restore h
  | park name =>
    cases h
    exact .parked name
  | unpark name =>
    cases h
    cases hname : session.parked.lookup name with
    | some cursor => exact .unparked hname
    | none => exact .ignored hname
  | beginLine bytes =>
    rw [act] at h
    split at h
    · next cursor hcursor =>
      cases h
      exact .begun hcursor
    · cases h
      exact .notBegun bytes
  | resolve index text start => exact effect_of_resolve h

/-- An action leaves a session as it is if it is refused, and otherwise
has one of the effects that are listed. -/
theorem step_act (session : Session) (action : Action) :
    (session.step (.act action)).2 = session ∨
      ∃ reply, Effect session action reply (session.step (.act action)).2 := by
  rw [step]
  cases h : session.act action with
  | error misuse => exact Or.inl rfl
  | ok result => exact Or.inr ⟨result.1, effect_of_act h⟩

end Session

/-! ### Commands as moves -/

namespace Session

/-- The session `after` can be reached from `session` by balanced moves,
whatever scopes are open. -/
def Leads (session after : Session) : Prop :=
  ∃ moves, Balanced moves ∧ ∀ outer, Moment.run ⟨session, outer⟩ moves = ⟨after, outer⟩

namespace Leads
variable {session middle after : Session}

/-- A session leads to itself, by no moves. -/
theorem refl (session : Session) : Leads session session := ⟨[], .nil, fun _ => rfl⟩

/-- A session leads to what an action makes of it, refused or not. -/
theorem action (session : Session) (action : Action) :
    Leads session (session.step (.act action)).2 :=
  ⟨[.act action], .single action, fun _ => rfl⟩

/-- What a session leads to leads on to what that session leads to. -/
theorem trans (h : Leads session middle) (hmore : Leads middle after) :
    Leads session after := by
  obtain ⟨moves, hmoves, hrun⟩ := h
  obtain ⟨more, hbalanced, hrun'⟩ := hmore
  refine ⟨moves ++ more, hmoves.append hbalanced, fun outer => ?_⟩
  rw [Moment.run_append, hrun, hrun']

/-- If a session leads to another one within a scope, it leads to the
session behind that scope. -/
theorem scope {widening : Widening} (h : Leads (session.enter widening) after) :
    Leads session (after.leave session) := by
  obtain ⟨body, hbody, hrun⟩ := h
  refine ⟨_, hbody.within widening, fun outer => ?_⟩
  rw [hbody.run_within]
  exact congrArg (fun moment : Moment => Moment.mk (moment.session.leave session) outer)
    (hrun (session :: outer))

end Leads

mutual

/-- A session leads to what a command in a scope makes of it. The scopes
that a refusal ends are left one by one. -/
theorem leads_perform (session : Session) (command : Command) :
    Leads session (session.perform command).session := by
  cases command with
  | act action =>
    have hact := Leads.action session action
    rw [step] at hact
    rw [perform]
    cases hresult : session.act action with
    | ok result =>
      rw [hresult] at hact
      exact hact
    | error misuse => exact Leads.refl session
  | widened widening body =>
    have hbody := leads_performAll (session.enter widening) body
    rw [perform]
    -- A body that has been stopped is left like any other.
    cases (session.enter widening).performAll body |>.stopped <;> exact hbody.scope

/-- Commands in a scope are performed by balanced moves, up to the first
refusal. -/
theorem leads_performAll (session : Session) (commands : List Command) :
    Leads session (session.performAll commands).session := by
  cases commands with
  | nil => exact Leads.refl session
  | cons command rest =>
    have hfirst := leads_perform session command
    rw [performAll]
    cases (session.perform command).stopped with
    | some misuse => exact hfirst
    | none => exact hfirst.trans (leads_performAll _ rest)

end

/-- A command outside all scopes is performed by balanced moves. -/
theorem leads_step (session : Session) (command : Command) :
    Leads session (session.step command).2 := by
  cases command with
  | act action => exact Leads.action session action
  | widened widening body => exact (leads_performAll (session.enter widening) body).scope

/-- The session after some commands, which are performed outside all
scopes one after the other. -/
def after (session : Session) (commands : List Command) : Session :=
  commands.foldl (fun session command => (session.step command).2) session

/-- A list of commands goes on behind another one with the session that
the other one has led to. -/
theorem run_append (session : Session) (commands more : List Command) :
    session.run (commands ++ more) = session.run commands ++ (session.after commands).run more := by
  induction commands generalizing session with
  | nil => rfl
  | cons command rest ih =>
    have hrest := ih (session.step command).2
    exact congrArg (((session.step command).1, (session.step command).2.cursor.glance) :: ·) hrest

/-- A whole list of commands is performed by balanced moves, whatever is
refused on the way. -/
theorem leads_after (session : Session) (commands : List Command) :
    Leads session (session.after commands) := by
  induction commands generalizing session with
  | nil => exact Leads.refl session
  | cons command commands ih => exact (leads_step session command).trans (ih _)

/-- What every move keeps holds after every list of commands, if it holds
at first. -/
theorem after_induction {p : Moment → Prop} {session : Session} (h : p ⟨session, []⟩)
    (hnext : ∀ moment move, p moment → p (moment.next move)) (commands : List Command) :
    p ⟨session.after commands, []⟩ := by
  obtain ⟨moves, -, hrun⟩ := session.leads_after commands
  rw [← hrun []]
  exact Moment.run_induction _ moves h hnext

end Session

end LineLexer
