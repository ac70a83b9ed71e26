import LineLexer.Proofs.History
import LineLexer.Tokens

/-!
# `LineLexer.Proofs.Replay`: a scan made again

A scan looks at the line, the position and the class table alone. So a
cursor that goes back to where it has been, with the table that it had
there, scans the same tokens again, whatever it has reported and
whatever it could give back.

* `Cursor.SamePlace`: two cursors that a scan cannot tell apart.
* `Session.Scans`, `Session.ScansAll`: what one scan shows, and what
  several show one after the other: the tokens, the positions behind
  them and the diagnostics that are added.
* `Session.Idles`: actions after which a token can still be given back.
* `Session.replays`: a token that is given back is scanned again, and a
  cursor that returns to a checkpoint scans what it has scanned from
  there.
-/

set_option autoImplicit false

namespace LineLexer

/-! ### What a scan depends on -/

/-- Cursors at the same position of the same line, with the same classes.
They may differ in what they have reported and in what they can give
back. -/
structure Cursor.SamePlace (cursor other : Cursor) : Prop where
  line : cursor.line = other.line
  position : cursor.position = other.position
  classes : cursor.classes = other.classes

namespace Cursor

/-- The diagnostics that a scan of the cursor adds to those that there
are. -/
def reported (cursor : Cursor) (mode : Mode) (fold : Bool) : List Diagnostic :=
  match cursor.cut? mode with
  | none => []
  | some cut =>
    (cut.scanned (mode.classes cursor.classes) mode fold
      (cursor.position + cut.skipped.length)).diagnostics

/-- A scan adds its diagnostics behind those that there are. -/
theorem diagnostics_scan (cursor : Cursor) (mode : Mode) (fold : Bool) :
    (cursor.scan mode fold).2.diagnostics
      = cursor.diagnostics ++ cursor.reported mode fold := by
  rw [scan, reported]
  cases cursor.cut? mode with
  | none => exact (List.append_nil _).symm
  | some cut => rfl

/-- A scan that returns a token notes where it began, so that the token
can be given back. -/
theorem lastStart_of_scan {cursor : Cursor} {mode : Mode} {fold : Bool} {token : Token}
    (h : (cursor.scan mode fold).1 = some token) :
    (cursor.scan mode fold).2.lastStart = some cursor.position := by
  unfold scan at h ⊢
  split
  · next hcut =>
    rw [hcut] at h
    cases h
  · rfl

/-- A scan that returns no token leaves what could be given back
before. -/
theorem lastStart_of_scan_none {cursor : Cursor} {mode : Mode} {fold : Bool}
    (h : (cursor.scan mode fold).1 = none) :
    (cursor.scan mode fold).2.lastStart = cursor.lastStart := by
  rw [scan_eq_none_iff] at h
  rw [scan, h]
  rfl

namespace SamePlace
variable {cursor other : Cursor}

/-- Two cursors at the same place have the same lexeme ahead. -/
theorem cut? (h : cursor.SamePlace other) (mode : Mode) : cursor.cut? mode = other.cut? mode := by
  rw [Cursor.cut?, Cursor.cut?, remaining, remaining, h.line, h.position, h.classes]

/-- Two cursors at the same place scan the same token. -/
theorem token_scan (h : cursor.SamePlace other) (mode : Mode) (fold : Bool) :
    (cursor.scan mode fold).1 = (other.scan mode fold).1 := by
  rw [scan, scan, h.cut? mode]
  cases other.cut? mode with
  | none => rfl
  | some cut =>
    dsimp only
    rw [h.position, h.classes]

/-- Two cursors at the same place report the same about their scans. -/
theorem reported (h : cursor.SamePlace other) (mode : Mode) (fold : Bool) :
    cursor.reported mode fold = other.reported mode fold := by
  rw [Cursor.reported, Cursor.reported, h.cut? mode, h.position, h.classes]

/-- Two cursors at the same place are at the same place behind a scan
too. -/
theorem scan (h : cursor.SamePlace other) (mode : Mode) (fold : Bool) :
    (cursor.scan mode fold).2.SamePlace (other.scan mode fold).2 := by
  refine ⟨?_, ?_, ?_⟩
  · rw [line_scan, line_scan, h.line]
  · rw [Cursor.scan, Cursor.scan, h.cut? mode]
    cases other.cut? mode with
    | none => exact congrArg Line.length h.line
    | some cut =>
      dsimp only
      rw [h.position, h.classes]
  · rw [classes_scan, classes_scan, h.classes]

end SamePlace

end Cursor

/-! ### What scans show -/

/-- What a scan shows: its token, and how it changes what can be seen of
the cursor. -/
structure Echo where
  token : Option Token
  /-- The position behind the scan. -/
  position : Nat
  /-- The diagnostics that the scan adds. -/
  reported : List Diagnostic
  deriving DecidableEq

namespace Session

/-- A scan of the session shows this, and leaves the other session behind
it. -/
structure Scans (session : Session) (mode : Mode) (fold : Bool) (echo : Echo)
    (after : Session) : Prop where
  act : session.act (.scan mode fold) = .ok (.token echo.token, after)
  position : after.cursor.position = echo.position
  diagnostics : after.cursor.diagnostics = session.cursor.diagnostics ++ echo.reported

/-- Scans one after the other show these things, and leave the last
session behind them. -/
inductive ScansAll : Session → List (Mode × Bool) → List Echo → Session → Prop where
  | nil (session : Session) : ScansAll session [] [] session
  | cons {session middle after : Session} {mode : Mode} {fold : Bool} {echo : Echo}
    {requests : List (Mode × Bool)} {echoes : List Echo}
    (h : session.Scans mode fold echo middle) (hmore : ScansAll middle requests echoes after) :
    ScansAll session ((mode, fold) :: requests) (echo :: echoes) after

/-- The session after a scan, with the token that the scan returned among
its tokens. -/
def scanned (session : Session) (mode : Mode) (fold : Bool) : Session :=
  { session with
    cursor := (session.cursor.scan mode fold).2
    tokens := session.tokens ++ (session.cursor.scan mode fold).1.toList }

/-- Every scan shows something: it is never refused. -/
theorem scans (session : Session) (mode : Mode) (fold : Bool) :
    session.Scans mode fold
      ⟨(session.cursor.scan mode fold).1, (session.cursor.scan mode fold).2.position,
        session.cursor.reported mode fold⟩ (session.scanned mode fold) where
  act := rfl
  position := rfl
  diagnostics := session.cursor.diagnostics_scan mode fold

/-- A scan shows one thing only, and leaves one session behind it. -/
theorem Scans.eq {session after : Session} {mode : Mode} {fold : Bool} {echo : Echo}
    (h : session.Scans mode fold echo after) :
    after = session.scanned mode fold ∧
      echo = ⟨(session.cursor.scan mode fold).1, (session.cursor.scan mode fold).2.position,
        session.cursor.reported mode fold⟩ := by
  obtain ⟨htoken, rfl⟩ := Prod.mk.inj (Except.ok.inj h.act)
  -- What had been reported before is the same on both sides.
  have hreported := (session.cursor.diagnostics_scan mode fold).symm.trans h.diagnostics
  refine ⟨rfl, ?_⟩
  cases echo with
  | mk token position reported =>
    rw [Echo.mk.injEq]
    exact ⟨(Reply.token.inj htoken).symm, h.position.symm,
      (List.append_cancel_left hreported).symm⟩

/-- Scans one after the other always show something, whatever they are
asked for. -/
theorem exists_scansAll (session : Session) (requests : List (Mode × Bool)) :
    ∃ echoes after, session.ScansAll requests echoes after := by
  induction requests generalizing session with
  | nil => exact ⟨[], session, .nil session⟩
  | cons request requests ih =>
    obtain ⟨echoes, after, hmore⟩ := ih (session.scanned request.1 request.2)
    exact ⟨_, after, .cons (session.scans request.1 request.2) hmore⟩

/-- A scan shows the same at the same place, and leaves the same place
behind it. -/
theorem Scans.of_samePlace {session other after : Session} {mode : Mode} {fold : Bool}
    {echo : Echo} (h : session.Scans mode fold echo after)
    (hplace : other.cursor.SamePlace session.cursor) :
    other.Scans mode fold echo (other.scanned mode fold) ∧
      (other.scanned mode fold).cursor.SamePlace after.cursor := by
  obtain ⟨rfl, rfl⟩ := h.eq
  refine ⟨?_, hplace.scan mode fold⟩
  have hscans := other.scans mode fold
  rwa [hplace.token_scan, (hplace.scan mode fold).position, hplace.reported] at hscans

/-- Scans one after the other show the same at the same place, by
induction on them. -/
theorem ScansAll.of_samePlace {session other after : Session} {requests : List (Mode × Bool)}
    {echoes : List Echo} (h : session.ScansAll requests echoes after)
    (hplace : other.cursor.SamePlace session.cursor) :
    ∃ again, other.ScansAll requests echoes again := by
  induction h generalizing other with
  | nil => exact ⟨other, .nil other⟩
  | cons hscan _ ih =>
    obtain ⟨hsame, hbehind⟩ := hscan.of_samePlace hplace
    obtain ⟨again, hmore⟩ := ih hbehind
    exact ⟨again, .cons hsame hmore⟩

/-! ### Giving a token back -/

/-- The action neither returns a token nor goes back, pins no byte and
stays with the cursor. -/
def Idle (session : Session) : Action → Prop
  | .scan mode fold => (session.cursor.scan mode fold).1 = none
  | .pushBack | .pin _ | .restore _ | .unpark _ | .beginLine _ => False
  | .consume | .peek _ | .read | .line | .remaining | .classes | .classesOf _ | .diagnostics
  | .takeDiagnostics | .checkpoint _ | .park _ | .resolve .. => True

/-- Idle actions, refused or not, lead from one session to another. A
token that was scanned before them can still be given back. -/
inductive Idles : Session → Session → Prop where
  | refl (session : Session) : Idles session session
  | step {session later : Session} (action : Action) (h : session.Idle action)
    (hmore : Idles (session.step (.act action)).2 later) : Idles session later

/-- An idle action leaves the line, the classes and what there is to give
back. -/
theorem Idle.step_eq {session : Session} {action : Action} (h : session.Idle action) :
    (session.step (.act action)).2.cursor.line = session.cursor.line ∧
      (session.step (.act action)).2.cursor.classes = session.cursor.classes ∧
        (session.step (.act action)).2.cursor.lastStart = session.cursor.lastStart := by
  rcases session.step_act action with heq | ⟨reply, heffect⟩
  · rw [heq]
    exact ⟨rfl, rfl, rfl⟩
  · generalize (session.step (.act action)).2 = after at heffect
    cases heffect with
    | scanned mode fold =>
      exact ⟨session.cursor.line_scan mode fold, session.cursor.classes_scan mode fold,
        Cursor.lastStart_of_scan_none h⟩
    | pushedBack => exact h.elim
    | pinned => exact h.elim
    | restored => exact h.elim
    | unparked => exact h.elim
    | begun => exact h.elim
    | _ => exact ⟨rfl, rfl, rfl⟩

/-- Idle actions, one after the other, leave the line, the classes and
what there is to give back. -/
theorem Idles.eq {session later : Session} (h : Idles session later) :
    later.cursor.line = session.cursor.line ∧ later.cursor.classes = session.cursor.classes ∧
      later.cursor.lastStart = session.cursor.lastStart := by
  induction h with
  | refl => exact ⟨rfl, rfl, rfl⟩
  | step _ hidle _ ih =>
    obtain ⟨hline, hclasses, hstart⟩ := hidle.step_eq
    exact ⟨ih.1.trans hline, ih.2.1.trans hclasses, ih.2.2.trans hstart⟩

/-- A token that is given back after idle actions is scanned again in the
same mode. The scan shows the same, and the token can be given back
again. -/
theorem scans_of_pushBack {session after later : Session} {mode : Mode} {fold : Bool}
    {token : Token} {position : Nat} {reported : List Diagnostic}
    (h : session.Scans mode fold ⟨some token, position, reported⟩ after)
    (hidles : Idles after later) :
    ∃ back again, later.act .pushBack = .ok (.done, back) ∧
      back.Scans mode fold ⟨some token, position, reported⟩ again ∧
        again.cursor.classes = after.cursor.classes ∧ again.cursor.canPushBack = true := by
  obtain ⟨hline, hclasses, hlast⟩ := hidles.eq
  obtain ⟨rfl, hecho⟩ := h.eq
  have htoken : (session.cursor.scan mode fold).1 = some token := (Echo.mk.inj hecho).1.symm
  have hstart : later.cursor.lastStart = some session.cursor.position :=
    hlast.trans (Cursor.lastStart_of_scan htoken)
  let back := later.withCursor
    { later.cursor with position := session.cursor.position, lastStart := none }
  have hback : later.act .pushBack = .ok (.done, back) := by
    rw [act, Cursor.pushBack, hstart]
    rfl
  -- The cursor is back where it was before the scan, so it scans the same again.
  have hplace : back.cursor.SamePlace session.cursor :=
    { line := hline.trans (session.cursor.line_scan mode fold)
      position := rfl
      classes := hclasses.trans (session.cursor.classes_scan mode fold) }
  obtain ⟨hagain, hbehind⟩ := h.of_samePlace hplace
  refine ⟨back, back.scanned mode fold, hback, hagain, hbehind.classes, ?_⟩
  have htoken' : (back.cursor.scan mode fold).1 = some token :=
    (hplace.token_scan mode fold).trans htoken
  show (back.cursor.scan mode fold).2.lastStart.isSome = true
  rw [Cursor.lastStart_of_scan htoken']
  rfl

end Session

/-! ### Returning to a checkpoint -/

/-- The move pins no byte, stays with the cursor and saves no other
position under the name. -/
def Move.keepsCheckpoint (name : String) : Move → Bool
  | .act (.pin _) => false
  | .act (.checkpoint other) => other != name
  | .act action => action.keepsCursor
  | .enter _ | .leave => true

namespace Session

/-- A position of the cursor's line is saved under the name, so that the
cursor can return to it. -/
structure Holds (session : Session) (name : String) (checkpoint : Checkpoint) : Prop where
  line : session.cursor.line = checkpoint.line
  lookup : session.checkpoints.lookup name = some checkpoint

namespace Holds
variable {session : Session} {name : String} {checkpoint : Checkpoint}

/-- An action that keeps the checkpoint leaves the position saved under
its name, and leaves every class as it is. -/
theorem step (h : session.Holds name checkpoint) {action : Action}
    (hkeeps : (Move.act action).keepsCheckpoint name = true) :
    (session.step (.act action)).2.Holds name checkpoint ∧
      (session.step (.act action)).2.cursor.classes = session.cursor.classes := by
  rcases session.step_act action with heq | ⟨reply, heffect⟩
  · rw [heq]
    exact ⟨h, rfl⟩
  · generalize (session.step (.act action)).2 = after at heffect
    cases heffect with
    | scanned mode fold =>
      exact ⟨⟨(session.cursor.line_scan mode fold).trans h.line, h.lookup⟩,
        session.cursor.classes_scan mode fold⟩
    | saved other =>
      -- Only a checkpoint under another name may be saved.
      have hne : (name == other) = false := by
        rw [beq_eq_false_iff_ne]
        rintro rfl
        simp [Move.keepsCheckpoint] at hkeeps
      refine ⟨⟨h.line, ?_⟩, rfl⟩
      rw [List.lookup_cons, hne]
      exact h.lookup
    | pinned => cases hkeeps
    | unparked => cases hkeeps
    | begun => cases hkeeps
    | _ => exact ⟨⟨h.line, h.lookup⟩, rfl⟩

/-- Balanced moves that keep the checkpoint leave the position saved under
its name. The classes behind them are the same, since every scope gives
them back. -/
theorem run {moves : List Move} (hbalanced : Balanced moves) (moment : Moment)
    (h : moment.session.Holds name checkpoint)
    (hkeeps : ∀ move ∈ moves, move.keepsCheckpoint name = true) :
    (moment.run moves).session.Holds name checkpoint ∧
      (moment.run moves).session.cursor.classes = moment.session.cursor.classes := by
  induction hbalanced generalizing moment with
  | nil => exact ⟨h, rfl⟩
  | @act action rest _ ih =>
    obtain ⟨hholds, hclasses⟩ := h.step (hkeeps (.act action) List.mem_cons_self)
    obtain ⟨hrest, hsame⟩ := ih (moment.next (.act action)) hholds
      fun move hmove => hkeeps move (List.mem_cons_of_mem _ hmove)
    exact ⟨hrest, hsame.trans hclasses⟩
  | @scope widening body rest hbody _ ihbody ih =>
    -- Inside, only the line and the saved position matter: the classes
    -- are those of the scope, which gives back the ones from before.
    have hinner := (ihbody (moment.next (.enter widening)) ⟨h.line, h.lookup⟩
      fun move hmove => hkeeps move (by simp [hmove])).1
    have hsplit : moment.run (.enter widening :: (body ++ .leave :: rest))
        = (moment.run (.enter widening :: (body ++ [.leave]))).run rest := by
      rw [← Moment.run_append]
      simp
    rw [hsplit, hbody.run_within]
    exact ih ⟨_, moment.outer⟩ ⟨hinner.line, hinner.lookup⟩
      fun move hmove => hkeeps move (by simp [hmove])

/-- Scans leave the position saved under its name, and the classes as they
are. -/
theorem scansAll {requests : List (Mode × Bool)} {echoes : List Echo} {after : Session}
    (hscans : session.ScansAll requests echoes after) (h : session.Holds name checkpoint) :
    after.Holds name checkpoint ∧ after.cursor.classes = session.cursor.classes := by
  induction hscans with
  | nil => exact ⟨h, rfl⟩
  | cons hscan _ ih =>
    obtain ⟨rfl, -⟩ := hscan.eq
    obtain ⟨hmore, hclasses⟩ := ih ⟨(Cursor.line_scan ..).trans h.line, h.lookup⟩
    exact ⟨hmore, hclasses.trans (Cursor.classes_scan ..)⟩

end Holds

/-- A cursor that returns to a checkpoint after balanced moves scans what
it has scanned from there. -/
theorem scansAll_of_restore {session after : Session} {name : String}
    {requests : List (Mode × Bool)} {echoes : List Echo}
    (h : (session.step (.act (.checkpoint name))).2.ScansAll requests echoes after)
    {moves : List Move} (hbalanced : Balanced moves)
    (hkeeps : ∀ move ∈ moves, move.keepsCheckpoint name = true) (outer : List Session) :
    ∃ back again, (Moment.run ⟨after, outer⟩ moves).session.act (.restore name)
        = .ok (.done, back) ∧ back.ScansAll requests echoes again := by
  have hsaved : (session.step (.act (.checkpoint name))).2.Holds name
      session.cursor.checkpoint := ⟨rfl, List.lookup_cons_self⟩
  obtain ⟨hscanned, hafter⟩ := hsaved.scansAll h
  obtain ⟨hheld, hclasses⟩ := Holds.run hbalanced ⟨after, outer⟩ hscanned hkeeps
  generalize (Moment.run ⟨after, outer⟩ moves).session = later at hheld hclasses ⊢
  let back := later.withCursor
    { later.cursor with position := session.cursor.position, lastStart := none }
  have hback : later.act (.restore name) = .ok (.done, back) := by
    rw [act, hheld.lookup]
    simp only [Cursor.restore, if_pos hheld.line.symm]
    rfl
  have hplace : back.cursor.SamePlace (session.step (.act (.checkpoint name))).2.cursor :=
    { line := hheld.line
      position := rfl
      classes := hclasses.trans hafter }
  obtain ⟨again, hagain⟩ := h.of_samePlace hplace
  exact ⟨back, again, hback, hagain⟩

/-- What has been scanned can be scanned again. A token that is given
back, after any number of idle actions, is scanned again in the same
mode, with the same position behind it and the same reports, and can
again be given back. A cursor that returns to a checkpoint, after scans
and any other moves that pin nothing, finds in the same scans the same
tokens, positions and reports. -/
theorem replays (session : Session) :
    (∀ mode fold token position reported after later,
      session.Scans mode fold ⟨some token, position, reported⟩ after → Idles after later →
        ∃ back again, later.act .pushBack = .ok (.done, back) ∧
          back.Scans mode fold ⟨some token, position, reported⟩ again ∧
            again.cursor.classes = after.cursor.classes ∧ again.cursor.canPushBack = true) ∧
    ∀ name requests echoes after,
      (session.step (.act (.checkpoint name))).2.ScansAll requests echoes after →
        ∀ moves outer, Balanced moves → (∀ move ∈ moves, move.keepsCheckpoint name = true) →
          ∃ back again, (Moment.run ⟨after, outer⟩ moves).session.act (.restore name)
              = .ok (.done, back) ∧ back.ScansAll requests echoes again :=
  ⟨fun _ _ _ _ _ _ _ hscan hidles => scans_of_pushBack hscan hidles,
    fun _ _ _ _ hscans _ outer hbalanced hkeeps =>
      scansAll_of_restore hscans hbalanced hkeeps outer⟩

/-- The quoted word of `"a"b -+5` is given back after two bytes of the
next token have been read and an operator has been resolved. Then two
scans are made again from a checkpoint, after the rest of the line has
been scanned in a scope. -/
theorem replays_of_quoted :
    ∃ cursor, (Settings.mk true [] .plain).cursor? [0x22, 0x61, 0x22, 0x62, 0x20, 0x2d, 0x2b, 0x35]
        = some cursor ∧
      let session := (Moment.start cursor []).session
      (∃ token reported after back again,
        session.Scans .word false ⟨some token, 5, reported⟩ after ∧
          (((after.step (.act .read)).2.step (.act .consume)).2.step
              (.act (.resolve 0 (some "-+") (some 5)))).2.act .pushBack = .ok (.done, back) ∧
            back.Scans .word false ⟨some token, 5, reported⟩ again ∧
              again.cursor.classes = after.cursor.classes ∧ again.cursor.canPushBack = true) ∧
      ∃ echoes after back again,
        (session.step (.act (.checkpoint "c"))).2.ScansAll [(.plain, true), (.real, false)] echoes
          after ∧
        (Moment.run ⟨after, []⟩ [.enter .word, .act (.scan .rest true), .act .pushBack, .leave,
          .act .takeDiagnostics]).session.act (.restore "c") = .ok (.done, back) ∧
          back.ScansAll [(.plain, true), (.real, false)] echoes again := by
  -- For any session, so that its cursor is not unfolded on the way.
  have hgiven : ∀ session : Session, (session.cursor.scan .word false).1.isSome = true →
      (session.cursor.scan .word false).2.position = 5 →
        ∃ token reported after back again,
          session.Scans .word false ⟨some token, 5, reported⟩ after ∧
            (((after.step (.act .read)).2.step (.act .consume)).2.step
                (.act (.resolve 0 (some "-+") (some 5)))).2.act .pushBack = .ok (.done, back) ∧
              back.Scans .word false ⟨some token, 5, reported⟩ again ∧
                again.cursor.classes = after.cursor.classes ∧
                  again.cursor.canPushBack = true := by
    intro session hsome hposition
    obtain ⟨token, htoken⟩ := Option.isSome_iff_exists.mp hsome
    have hscan := session.scans .word false
    rw [htoken, hposition] at hscan
    obtain ⟨back, again, hreplay⟩ := (replays session).1 _ _ _ _ _ _ _ hscan
      (.step .read trivial <| .step .consume trivial <|
        .step (.resolve 0 (some "-+") (some 5)) trivial <| .refl _)
    exact ⟨token, _, _, back, again, hscan, hreplay⟩
  refine ⟨_, rfl, hgiven _ (by decide +kernel) (by decide +kernel), ?_⟩
  generalize (Moment.start _ []).session = session
  obtain ⟨echoes, after, hscans⟩ :=
    (session.step (.act (.checkpoint "c"))).2.exists_scansAll [(.plain, true), (.real, false)]
  have hbody : Balanced [.act (.scan .rest true), .act .pushBack] := .act (.single _)
  obtain ⟨back, again, hreplay⟩ := (replays session).2 _ _ _ _ hscans
    [.enter .word, .act (.scan .rest true), .act .pushBack, .leave, .act .takeDiagnostics] []
    (.scope hbody (.single _)) (by decide)
  exact ⟨echoes, after, back, again, hscans, hreplay⟩

end Session

end LineLexer
