import LineLexer.Proofs.Sound

/-!
# `LineLexer.Proofs.GivingBack`: what a cursor can go back to

A cursor remembers one position, that from which its last token was
scanned, and forgets it when it goes back. This module keeps a record
beside a history: for every cursor, on which line it was made and all
that it has done since, with what came of it. What a cursor can go back
to is then a question about its record.

* `Deed`, `Past`, `Chronicle`: the record of a history. A clone goes on
  with the past of the cursor that it was made from.
* `pending`: the position that the deeds of a cursor leave it to go
  back to.
* `Session.Recorded`: what a session has saved fits its record; every
  action keeps that.
* `Session.Kept`: the line, the position, and when a push back and a
  return to a checkpoint succeed, in terms of the record.
* `Moment.kept_run`: every session is kept as its record says, at every
  moment of every history.
-/

set_option autoImplicit false

namespace LineLexer

/-! ### Records -/

/-- Something that a cursor has done: the action, where the cursor was
before it, and what came of it. -/
structure Deed where
  action : Action
  /-- Where the cursor was before. -/
  position : Nat
  reply : Reply

namespace Deed

/-- Where the scan began, if the deed is one that returned a token. -/
def start? (deed : Deed) : Option Nat :=
  match deed.action, deed.reply with
  | .scan .., .token (some _) => some deed.position
  | _, _ => none

/-- The deed is a push back or a return to a checkpoint. -/
def goesBack (deed : Deed) : Bool :=
  match deed.action with
  | .pushBack | .restore _ => true
  | _ => false

end Deed

/-- What is known of the past of a cursor. A clone shares the past of the
cursor that it was made from. -/
structure Past where
  /-- The number of the line that the cursor was made on. -/
  origin : Nat
  /-- What the cursor has done since with success, the latest first. -/
  deeds : List Deed

/-- A position that has been saved, and the number of its line. A cursor
can return to it on that line only. -/
structure Bookmark where
  origin : Nat
  position : Nat

/-- The record of a history: the past of the current cursor, and what has
been saved beside it. -/
structure Chronicle where
  current : Past
  /-- The pasts of the saved cursors, the latest first. -/
  parked : List (String × Past)
  /-- The saved positions, the latest first. -/
  bookmarks : List (String × Bookmark)
  /-- The lines that cursors have been made on, in order. -/
  lines : List (List UInt8)

namespace Chronicle

/-- The record at the start of a line, which ends at the first NUL. -/
def start (bytes : List UInt8) : Chronicle :=
  { current := ⟨0, []⟩, parked := [], bookmarks := [], lines := [bytes.takeWhile (· != 0)] }

/-- The record with one more deed of the current cursor. -/
def add (chronicle : Chronicle) (deed : Deed) : Chronicle :=
  { chronicle with current := ⟨chronicle.current.origin, deed :: chronicle.current.deeds⟩ }

/-- The record after a successful action of a cursor. Saving leaves no
trace in its past, and neither does a name that is not known. -/
def note (chronicle : Chronicle) (deed : Deed) : Chronicle :=
  match deed.action with
  | .checkpoint name =>
    { chronicle with
      bookmarks := (name, ⟨chronicle.current.origin, deed.position⟩) :: chronicle.bookmarks }
  | .restore name =>
    if (chronicle.bookmarks.lookup name).isSome then chronicle.add deed else chronicle
  | .park name => { chronicle with parked := (name, chronicle.current) :: chronicle.parked }
  | .unpark name =>
    { chronicle with current := (chronicle.parked.lookup name).getD chronicle.current }
  | .beginLine bytes =>
    if deed.reply = .lineBegun true then
      { chronicle with
        current := ⟨chronicle.lines.length, []⟩
        lines := chronicle.lines ++ [bytes.takeWhile (· != 0)] }
    else chronicle
  | _ => chronicle.add deed

/-- The record after a move. An action that is refused is not recorded,
and neither are the bounds of scopes. -/
def next (chronicle : Chronicle) (moment : Moment) : Move → Chronicle
  | .act action =>
    match moment.session.act action with
    | .ok (reply, _) => chronicle.note ⟨action, moment.session.cursor.position, reply⟩
    | .error _ => chronicle
  | .enter _ | .leave => chronicle

/-- The record after some moves, one after the other. -/
def run (chronicle : Chronicle) (moment : Moment) : List Move → Chronicle
  | [] => chronicle
  | move :: moves => (chronicle.next moment move).run (moment.next move) moves

end Chronicle

/-! ### What the deeds leave to go back to -/

/-- The position at which the last token was scanned, unless the cursor
has gone back since. -/
def pending : List Deed → Option Nat
  | [] => none
  | deed :: older => if deed.goesBack then none else deed.start?.or (pending older)

/-- A scan that returns a token is no push back and no return to a
checkpoint. -/
theorem Deed.goesBack_of_start? {deed : Deed} (h : deed.start?.isSome = true) :
    deed.goesBack = false := by
  unfold Deed.start? at h
  split at h
  · next haction _ => rw [Deed.goesBack, haction]
  · cases h

section Pending
variable {deed : Deed} {older : List Deed}

/-- Going back leaves a cursor nothing to go back to. -/
theorem pending_of_goesBack (h : deed.goesBack = true) : pending (deed :: older) = none := by
  rw [pending, h, if_pos rfl]

/-- A deed that does not go back leaves what was left before, unless it
returns a token. Then it leaves the position at which that scan began. -/
theorem pending_of_not_goesBack (h : deed.goesBack = false) :
    pending (deed :: older) = deed.start?.or (pending older) := by
  rw [pending, h]
  rfl

/-- What is left to go back to is where the last scan that returned a
token began, if there was one and the cursor has not gone back since. -/
theorem pending_eq_some_iff (deeds : List Deed) (start : Nat) :
    pending deeds = some start ↔
      ∃ newer deed older, deeds = newer ++ deed :: older ∧ deed.start? = some start ∧
        ∀ other ∈ newer, other.goesBack = false ∧ other.start? = none := by
  constructor
  -- One way the induction is on the deeds, and back it is on those that
  -- are newer than the scan.
  · intro h
    induction deeds with
    | nil => cases h
    | cons deed older ih =>
      cases hback : deed.goesBack with
      | true =>
        rw [pending_of_goesBack hback] at h
        cases h
      | false =>
        rw [pending_of_not_goesBack hback] at h
        cases hstart : deed.start? with
        | some position =>
          rw [hstart, Option.some_or] at h
          exact ⟨[], deed, older, rfl, hstart.trans h, fun other hother => absurd hother
            List.not_mem_nil⟩
        | none =>
          rw [hstart, Option.none_or] at h
          obtain ⟨newer, last, rest, rfl, hlast, hnewer⟩ := ih h
          refine ⟨deed :: newer, last, rest, rfl, hlast, fun other hother => ?_⟩
          cases hother with
          | head => exact ⟨hback, hstart⟩
          | tail _ hmem => exact hnewer other hmem
  · rintro ⟨newer, deed, older, rfl, hstart, hnewer⟩
    induction newer with
    | nil =>
      have hback := Deed.goesBack_of_start? (by rw [hstart]; rfl)
      rw [List.nil_append, pending_of_not_goesBack hback, hstart, Option.some_or]
    | cons last newer ih =>
      obtain ⟨hback, hnone⟩ := hnewer last List.mem_cons_self
      rw [List.cons_append, pending_of_not_goesBack hback, hnone, Option.none_or]
      exact ih fun other hother => hnewer other (List.mem_cons_of_mem _ hother)

/-- Something is left exactly if some scan returned a token and the
cursor has not gone back since. -/
theorem isSome_pending_iff (deeds : List Deed) :
    (pending deeds).isSome = true ↔
      ∃ newer deed older, deeds = newer ++ deed :: older ∧ deed.start?.isSome = true ∧
        ∀ other ∈ newer, other.goesBack = false := by
  constructor
  · intro h
    obtain ⟨start, hstart⟩ := Option.isSome_iff_exists.mp h
    obtain ⟨newer, deed, older, heq, hdeed, hnewer⟩ := (pending_eq_some_iff deeds start).mp hstart
    exact ⟨newer, deed, older, heq, by rw [hdeed]; rfl, fun other hother => (hnewer other hother).1⟩
  · rintro ⟨newer, deed, older, rfl, hstart, hnewer⟩
    induction newer with
    | nil =>
      rw [List.nil_append, pending_of_not_goesBack (Deed.goesBack_of_start? hstart),
        Option.isSome_or, hstart, Bool.true_or]
    | cons last newer ih =>
      rw [List.cons_append, pending_of_not_goesBack (hnewer last List.mem_cons_self),
        Option.isSome_or, ih fun other hother => hnewer other (List.mem_cons_of_mem _ hother),
        Bool.or_true]

end Pending

/-! ### The record fits the session -/

/-- The lists have the same names, with entries that are related. -/
def Agree {α β : Type} (r : α → β → Prop) (saved : List (String × α))
    (noted : List (String × β)) : Prop :=
  List.Forall₂ (fun a b => a.1 = b.1 ∧ r a.2 b.2) saved noted

/-- What is found under a name in one of two lists that agree is related
to what is found in the other. A name that is missing in one is missing in
both. -/
theorem Agree.lookup {α β : Type} {r : α → β → Prop} {saved : List (String × α)}
    {noted : List (String × β)} (h : Agree r saved noted) (name : String) :
    (saved.lookup name = none ∧ noted.lookup name = none) ∨
      ∃ a b, saved.lookup name = some a ∧ noted.lookup name = some b ∧ r a b := by
  induction h with
  | nil => exact Or.inl ⟨rfl, rfl⟩
  | @cons first other saved noted hfirst _ ih =>
    rw [List.lookup_cons, List.lookup_cons, ← hfirst.1]
    split
    · exact Or.inr ⟨_, _, rfl, rfl, hfirst.2⟩
    · exact ih

/-- Two lists that agree also agree in a weaker relation. -/
theorem Agree.imp {α β : Type} {r s : α → β → Prop} {saved : List (String × α)}
    {noted : List (String × β)} (h : Agree r saved noted) (hrs : ∀ a b, r a b → s a b) :
    Agree s saved noted :=
  List.Forall₂.imp (fun a b hab => ⟨hab.1, hrs a.2 b.2 hab.2⟩) h

/-- The line of a cursor is the one with the number, among the lines that
have been made. So two lines are the same exactly if their numbers are. -/
structure Line.Numbered (line : Line) (lines : List (List UInt8)) (origin : Nat) : Prop where
  serial : line.serial = origin
  bytes : lines[origin]? = some line.bytes

/-- The past of a cursor tells its line and the position that it can go
back to. This is what every deed keeps. -/
structure Cursor.Recorded (cursor : Cursor) (lines : List (List UInt8)) (past : Past) : Prop where
  line : cursor.line.Numbered lines past.origin
  lastStart : cursor.lastStart = pending past.deeds

/-- A bookmark tells the line and the position of the checkpoint that a
session has saved under a name. -/
structure Checkpoint.Recorded (checkpoint : Checkpoint) (lines : List (List UInt8))
    (bookmark : Bookmark) : Prop where
  line : checkpoint.line.Numbered lines bookmark.origin
  position : checkpoint.position = bookmark.position

/-- The record of a history tells what a session has saved: the past of
each cursor, and a bookmark for each checkpoint. -/
structure Session.Recorded (session : Session) (chronicle : Chronicle) : Prop where
  cursor : session.cursor.Recorded chronicle.lines chronicle.current
  parked : Agree (Cursor.Recorded · chronicle.lines) session.parked chronicle.parked
  checkpoints :
    Agree (Checkpoint.Recorded · chronicle.lines) session.checkpoints chronicle.bookmarks
  nextSerial : session.nextSerial = chronicle.lines.length

/-- Two lines that have been made are the same exactly if their numbers
are. -/
theorem Line.Numbered.eq_iff {line other : Line} {lines : List (List UInt8)} {origin number : Nat}
    (h : line.Numbered lines origin) (hother : other.Numbered lines number) :
    line = other ↔ origin = number := by
  constructor
  · rintro rfl
    rw [← h.serial, hother.serial]
  · rintro rfl
    have hbytes : line.bytes = other.bytes :=
      Option.some.inj (h.bytes.symm.trans hother.bytes)
    have hserial : line.serial = other.serial := h.serial.trans hother.serial.symm
    cases line
    cases other
    cases hbytes
    cases hserial
    rfl

/-- A line of some bytes gets the number that it is given. -/
theorem Line.serial_of_ofBytes? {serial : Nat} {bytes : List UInt8} {line : Line}
    (h : Line.ofBytes? serial bytes = some line) : line.serial = serial := by
  unfold Line.ofBytes? at h
  dsimp only at h
  split at h
  · cases h
  · cases h
    rfl

/-- Making a new line leaves the numbers of the old ones as they are. -/
theorem Line.Numbered.append {line : Line} {lines : List (List UInt8)} {origin : Nat}
    (h : line.Numbered lines origin) (bytes : List UInt8) :
    line.Numbered (lines ++ [bytes]) origin where
  serial := h.serial
  bytes := by
    obtain ⟨hlt, -⟩ := List.getElem?_eq_some_iff.mp h.bytes
    rw [List.getElem?_append_left hlt, h.bytes]

/-- Making a new line leaves the pasts of the old cursors as they are. -/
theorem Cursor.Recorded.append {cursor : Cursor} {lines : List (List UInt8)} {past : Past}
    (h : cursor.Recorded lines past) (bytes : List UInt8) :
    cursor.Recorded (lines ++ [bytes]) past :=
  ⟨h.line.append bytes, h.lastStart⟩

namespace Session.Recorded
variable {session after : Session} {chronicle : Chronicle}

/-- A deed of the current cursor keeps the record fitting if the cursor
stays on its line and remembers what its deeds leave it. -/
theorem add (h : session.Recorded chronicle) {cursor : Cursor} {deed : Deed}
    (hline : cursor.line = session.cursor.line)
    (hstart : cursor.lastStart = pending (deed :: chronicle.current.deeds)) :
    Recorded { session with cursor } (chronicle.add deed) where
  cursor := ⟨hline ▸ h.cursor.line, hstart⟩
  parked := h.parked
  checkpoints := h.checkpoints
  nextSerial := h.nextSerial

/-- A deed that neither returns a token nor goes back keeps the record
fitting, if the cursor stays on its line and remembers the same. -/
theorem add_of_neither (h : session.Recorded chronicle) {cursor : Cursor} {deed : Deed}
    (hline : cursor.line = session.cursor.line)
    (hsame : cursor.lastStart = session.cursor.lastStart)
    (hback : deed.goesBack = false) (hnone : deed.start? = none) :
    Recorded { session with cursor } (chronicle.add deed) := by
  refine h.add hline ?_
  rw [pending_of_not_goesBack hback, hnone, Option.none_or, hsame, h.cursor.lastStart]

/-- A change of the class table keeps the record fitting, as classes are
not recorded. -/
theorem withClasses (h : session.Recorded chronicle) (classes : ClassTable) :
    (session.withCursor (session.cursor.withClasses classes)).Recorded chronicle :=
  { h with cursor := ⟨h.cursor.line, h.cursor.lastStart⟩ }

/-- A scan that returns a token leaves the position at which it began to
go back to. A scan that returns none leaves what was left before. -/
theorem lastStart_scan (cursor : Cursor) (mode : Mode) (fold : Bool) :
    (cursor.scan mode fold).2.lastStart
      = ((cursor.scan mode fold).1.map fun _ => cursor.position).or cursor.lastStart := by
  unfold Cursor.scan
  cases cursor.cut? mode <;> rfl

/-- A scan is recorded with the position at which it began, if it
returns a token. -/
theorem start?_scan (mode : Mode) (fold : Bool) (position : Nat) (token : Option Token) :
    (Deed.mk (.scan mode fold) position (.token token)).start?
      = token.map fun _ => position := by
  cases token <;> rfl

/-- Asking is recorded, and changes nothing that the record tells; a
name that is not known is not recorded. -/
theorem effect_of_ignores (h : session.Recorded chronicle) {action : Action}
    (hignores : session.Ignores action) (reply : Reply) :
    session.Recorded (chronicle.note ⟨action, session.cursor.position, reply⟩) := by
  cases action with
  | restore name =>
    rcases h.checkpoints.lookup name with ⟨-, hnone⟩ | ⟨_, _, hsome, -, -⟩
    · rw [Chronicle.note]
      simp only [hnone]
      exact h
    · rw [Ignores, hsome] at hignores
      cases hignores
  | unpark name =>
    rcases h.parked.lookup name with ⟨-, hnone⟩ | ⟨_, _, hsome, -, -⟩
    · rw [Chronicle.note]
      simp only [hnone]
      exact h
    · rw [Ignores, hsome] at hignores
      cases hignores
  | peek | line | remaining | classes | classesOf | diagnostics =>
    exact h.add_of_neither rfl rfl rfl rfl
  | _ => cases hignores

/-- The clone of a saved cursor goes on with the past that is noted under
its name. -/
theorem effect_of_unpark (h : session.Recorded chronicle) {name : String} {cursor : Cursor}
    (hname : session.parked.lookup name = some cursor) (position : Nat) (reply : Reply) :
    Recorded { session with cursor } (chronicle.note ⟨.unpark name, position, reply⟩) := by
  rcases h.parked.lookup name with ⟨hnone, -⟩ | ⟨_, past, hfound, hsome, hrecorded⟩
  · rw [hname] at hnone
    cases hnone
  · rw [hname] at hfound
    cases hfound
    rw [Chronicle.note]
    simp only [hsome]
    exact { h with cursor := hrecorded }

/-- A new line gets the next number, and the cursor on it a new past. -/
theorem effect_of_beginLine (h : session.Recorded chronicle) {bytes : List UInt8}
    {cursor : Cursor} (hcursor : Cursor.ofBytes? session.nextSerial bytes = some cursor)
    (position : Nat) :
    Recorded { session with cursor, nextSerial := session.nextSerial + 1 }
      (chronicle.note ⟨.beginLine bytes, position, .lineBegun true⟩) := by
  obtain ⟨line, hline, rfl⟩ := Option.map_eq_some_iff.mp hcursor
  refine Recorded.mk ⟨⟨?_, ?_⟩, rfl⟩ ?_ ?_ ?_
  · exact (Line.serial_of_ofBytes? hline).trans h.nextSerial
  · show (chronicle.lines ++ [_])[chronicle.lines.length]? = some line.bytes
    rw [Line.bytes_of_ofBytes? hline, List.getElem?_concat_length]
  · exact h.parked.imp fun cursor past hrecorded => hrecorded.append _
  · exact h.checkpoints.imp fun checkpoint bookmark hrecorded =>
      ⟨hrecorded.line.append _, hrecorded.position⟩
  · simp [h.nextSerial, Chronicle.note]

/-- A successful action and the note about it keep the record fitting.
There is one case for each effect that an action can have. -/
theorem effect (h : session.Recorded chronicle) {action : Action} {reply : Reply}
    (heffect : Effect session action reply after) :
    after.Recorded (chronicle.note ⟨action, session.cursor.position, reply⟩) := by
  cases heffect with
  | ignored hignores => exact h.effect_of_ignores hignores reply
  | scanned mode fold =>
    refine Recorded.mk ⟨?_, ?_⟩ h.parked h.checkpoints h.nextSerial
    · exact (session.cursor.line_scan mode fold) ▸ h.cursor.line
    -- The scan and the record take the position of before or keep what
    -- there was, by the same case: whether there is a token.
    · show (session.cursor.scan mode fold).2.lastStart = pending (_ :: chronicle.current.deeds)
      rw [pending_of_not_goesBack rfl, start?_scan, lastStart_scan, h.cursor.lastStart]
  | pushedBack hstart => exact h.add rfl (pending_of_goesBack rfl).symm
  | moved _ haction _ =>
    cases action with
    | consume | read | resolve => exact h.add_of_neither rfl rfl rfl rfl
    | _ => cases haction
  | pinned byte => exact h.add_of_neither rfl rfl rfl rfl
  | taken => exact h.add_of_neither rfl rfl rfl rfl
  | saved name =>
    exact { h with checkpoints := .cons ⟨rfl, h.cursor.line, rfl⟩ h.checkpoints }
  | restored hname hline =>
    rcases h.checkpoints.lookup _ with ⟨hnone, -⟩ | ⟨_, bookmark, -, hsome, -⟩
    · rw [hname] at hnone
      cases hnone
    · rw [Chronicle.note]
      simp only [hsome]
      exact h.add rfl (pending_of_goesBack rfl).symm
  | parked name => exact { h with parked := .cons ⟨rfl, h.cursor⟩ h.parked }
  | unparked hname => exact h.effect_of_unpark hname _ _
  | notBegun => exact h
  | begun hcursor => exact h.effect_of_beginLine hcursor _

/-- A move keeps the record fitting, whether it is an action or a bound of
a scope. -/
theorem next {moment : Moment} (h : moment.session.Recorded chronicle) (move : Move) :
    (moment.next move).session.Recorded (chronicle.next moment move) := by
  cases move with
  | act action =>
    rw [Moment.next, Chronicle.next, step]
    cases hact : moment.session.act action with
    | ok result => exact h.effect (effect_of_act hact)
    | error misuse => exact h
  | enter widening => exact h.withClasses _
  | leave =>
    rw [Moment.next]
    split
    · exact h
    · exact h.withClasses _

/-- Any moves keep the record fitting, by induction on them. -/
theorem run {moment : Moment} (h : moment.session.Recorded chronicle) (moves : List Move) :
    (moment.run moves).session.Recorded (chronicle.run moment moves) := by
  induction moves generalizing moment chronicle with
  | nil => exact h
  | cons move moves ih => exact ih (h.next move)

/-- The record at the start of a line fits: nothing has been done on the
only line. -/
theorem start {settings : Settings} {bytes : List UInt8} {cursor : Cursor}
    (h : settings.cursor? bytes = some cursor) (tokens : List Token) :
    (Moment.start cursor tokens).session.Recorded (.start bytes) := by
  obtain ⟨fresh, hfresh, rfl⟩ := Option.map_eq_some_iff.mp h
  obtain ⟨line, hline, rfl⟩ := Option.map_eq_some_iff.mp hfresh
  refine Recorded.mk ⟨⟨Line.serial_of_ofBytes? hline, ?_⟩, rfl⟩ .nil .nil rfl
  exact congrArg some (Line.bytes_of_ofBytes? hline).symm

end Session.Recorded

/-! ### At every moment -/

/-- What can be said of a session from its record. There is one field for
each thing that is promised about going back. -/
structure Session.Kept (session : Session) (chronicle : Chronicle) : Prop where
  /-- The cursor is on the line that it was made on. A clone is on the
  line of the cursor that it was made from. -/
  line : session.cursor.line.Numbered chronicle.lines chronicle.current.origin
  /-- No action changes the line, unless it makes another cursor the
  current one. -/
  line_step : ∀ action : Action, action.keepsCursor = true →
    (session.step (.act action)).2.cursor.line = session.cursor.line
  line_ne_nil : session.cursor.line.bytes ≠ []
  zero_not_mem : 0 ∉ session.cursor.line.bytes
  position_le : session.cursor.position ≤ session.cursor.line.length
  /-- A token can be given back exactly if some scan has returned one,
  and the cursor has not gone back since. -/
  canPushBack_iff : session.cursor.canPushBack = true ↔
    ∃ newer deed older, chronicle.current.deeds = newer ++ deed :: older ∧
      deed.start?.isSome = true ∧ ∀ other ∈ newer, other.goesBack = false
  /-- A push back goes to where the last scan that returned a token began,
  and changes nothing else. -/
  pushBack : session.cursor.canPushBack = true →
    ∃ newer deed older start, chronicle.current.deeds = newer ++ deed :: older ∧
      deed.start? = some start ∧ (∀ other ∈ newer, other.start? = none) ∧
        session.step (.act .pushBack) = (.reply .done,
          session.withCursor { session.cursor with position := start, lastStart := none })
  /-- A push back is refused if no token can be given back, and changes
  nothing then. -/
  pushBack_refused : session.cursor.canPushBack = false →
    session.step (.act .pushBack) = (.refused .nothingToPushBack, session)
  /-- A checkpoint from the same line is returned to, and nothing can be
  given back then. -/
  restore : ∀ name bookmark, chronicle.bookmarks.lookup name = some bookmark →
    bookmark.origin = chronicle.current.origin →
      session.step (.act (.restore name)) = (.reply .done,
        session.withCursor
          { session.cursor with position := bookmark.position, lastStart := none })
  /-- A checkpoint from another line is refused, and nothing is
  changed. -/
  restore_refused : ∀ name bookmark, chronicle.bookmarks.lookup name = some bookmark →
    bookmark.origin ≠ chronicle.current.origin →
      session.step (.act (.restore name)) = (.refused .foreignCheckpoint, session)

/-- An action that keeps the cursor leaves it on its line. -/
theorem Session.Effect.line_eq {session after : Session} {action : Action} {reply : Reply}
    (h : Effect session action reply after) (hkeeps : action.keepsCursor = true) :
    after.cursor.line = session.cursor.line := by
  cases h with
  | scanned mode fold => exact session.cursor.line_scan mode fold
  | unparked => cases hkeeps
  | begun => cases hkeeps
  | _ => rfl

/-- A checkpoint is found under every name for which there is a bookmark,
with the position and the line that the bookmark tells. -/
theorem Session.Recorded.checkpoint {session : Session} {chronicle : Chronicle}
    (h : session.Recorded chronicle) {name : String} {bookmark : Bookmark}
    (hname : chronicle.bookmarks.lookup name = some bookmark) :
    ∃ checkpoint, session.checkpoints.lookup name = some checkpoint ∧
      checkpoint.position = bookmark.position ∧
        (checkpoint.line = session.cursor.line ↔
          bookmark.origin = chronicle.current.origin) := by
  rcases h.checkpoints.lookup name with ⟨-, hnone⟩ | ⟨checkpoint, other, hfound, hother, hrecorded⟩
  · rw [hname] at hnone
    cases hnone
  · rw [hname] at hother
    cases hother
    exact ⟨checkpoint, hfound, hrecorded.position, hrecorded.line.eq_iff h.cursor.line⟩

/-- A session that is sound and fits its record has all that is promised
about going back. -/
theorem Session.Recorded.kept {session : Session} {chronicle : Chronicle}
    (h : session.Recorded chronicle) (hsound : session.Sound) : session.Kept chronicle where
  line := h.cursor.line
  line_step := by
    intro action hkeeps
    rcases session.step_act action with heq | ⟨reply, heffect⟩
    · rw [heq]
    · exact heffect.line_eq hkeeps
  line_ne_nil := session.cursor.line.bytes_ne_nil
  zero_not_mem := session.cursor.line.zero_not_mem
  position_le := hsound.cursor.position_le
  canPushBack_iff := by
    rw [Cursor.canPushBack, h.cursor.lastStart, isSome_pending_iff]
  pushBack := by
    intro hcan
    obtain ⟨start, hstart⟩ := Option.isSome_iff_exists.mp hcan
    have hpending := hstart
    rw [h.cursor.lastStart] at hpending
    -- The position to go back to is that before the last scan that found a token.
    obtain ⟨newer, deed, older, hdeeds, hdeed, hnewer⟩ := (pending_eq_some_iff ..).mp hpending
    refine ⟨newer, deed, older, start, hdeeds, hdeed, fun other hother => (hnewer other hother).2,
      ?_⟩
    rw [step, act, Cursor.pushBack, hstart]
    rfl
  pushBack_refused := by
    intro hcannot
    have hnone : session.cursor.lastStart = none := by
      rwa [Cursor.canPushBack, Option.isSome_eq_false_iff, Option.isNone_iff_eq_none] at hcannot
    rw [step, act, Cursor.pushBack, hnone]
    rfl
  restore := by
    intro name bookmark hname horigin
    -- The checkpoint is on the cursor's line exactly if both lines have one origin.
    obtain ⟨checkpoint, hfound, hposition, hline⟩ := h.checkpoint hname
    rw [step, act, hfound]
    simp only [Cursor.restore, if_pos (hline.mpr horigin), hposition]
    rfl
  restore_refused := by
    intro name bookmark hname horigin
    obtain ⟨checkpoint, hfound, -, hline⟩ := h.checkpoint hname
    rw [step, act, hfound]
    simp only [Cursor.restore, if_neg fun heq => horigin (hline.mp heq)]
    rfl

/-- Whatever is done to the cursor of a line and to its clones, in scopes
and outside, the record tells what they can go back to. Actions that were
refused, and moves that had no scope to leave, are among the moves. -/
theorem Moment.kept_run {settings : Settings} {bytes : List UInt8} {cursor : Cursor}
    (h : settings.cursor? bytes = some cursor) (tokens : List Token) (moves : List Move) :
    ((Moment.start cursor tokens).run moves).session.Kept
      ((Chronicle.start bytes).run (Moment.start cursor tokens) moves) :=
  ((Session.Recorded.start h tokens).run moves).kept
    ((Moment.Sound.start (.of_cursor? h) tokens).run moves).session

/-- The letter of `a b` is scanned in a scope, and a clone is saved. The
cursor gives the token back, and is refused a second time; on a new line
the old checkpoint is refused. The clone can still give it back. -/
theorem Moment.kept_of_clone :
    ∃ cursor, (Settings.mk true [] .plain).cursor? [0x61, 0x20, 0x62] = some cursor ∧
      let moves : List Move := [.act (.checkpoint "c"), .enter .word, .act (.scan .plain true),
        .leave, .act .read, .act (.park "p"), .act .pushBack, .act .pushBack,
        .act (.beginLine [0x78]), .act (.restore "c"), .act (.unpark "p")]
      let reached := (Moment.start cursor []).run moves
      let chronicle := (Chronicle.start [0x61, 0x20, 0x62]).run (Moment.start cursor []) moves
      reached.session.cursor.canPushBack = true ∧ reached.session.Kept chronicle := by
  have h : (Settings.mk true [] .plain).cursor? [0x61, 0x20, 0x62] = some _ := rfl
  exact ⟨_, rfl, by decide +kernel, Moment.kept_run h [] _⟩

end LineLexer
