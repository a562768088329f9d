import Tabletop.Validation
import Tabletop.Walk

namespace Tabletop

-- An activity in play, with the world and the dice, the events so far, and the number of tickets
-- that were issued for prompts.
structure Session where
  activity : Activity
  world : World
  dice : Dice
  events : List Event := []
  issued : Nat := 0

namespace Session

def emit (s : Session) (event : Event) : Session := { s with events := s.events ++ [event] }

def bind (s : Session) (target : Option Snapshot) : Session :=
  { s with activity := { s.activity with records := s.activity.records.bind target } }

def withoutPending (s : Session) : Session :=
  { s with activity := { s.activity with pending := none } }

-- The session as a walk finds it.
def run (s : Session) : Run where
  records := s.activity.records
  ledger := s.activity.ledger
  world := s.world
  dice := s.dice
  events := s.events
  charged := s.activity.charged

-- The session as a walk leaves it.
def keep (s : Session) (run : Run) : Session where
  activity := { s.activity with
    records := run.records, ledger := run.ledger, charged := run.charged }
  world := run.world
  dice := run.dice
  events := run.events
  issued := s.issued

-- Writes the report of a walk that has stopped. One that waits gets the next ticket.
def close (setting : Setting) (wait : Option Wait) (run : Run) (s : Session) : Report × Session :=
  match wait with
  | none =>
    let halted := !run.halts.isEmpty
    (⟨if halted then .halted else .completed, run.steps, run.halts⟩,
      (s.keep run).emit (.runFinished s.activity.id halted))
  | some w =>
    let ticket := setting.tickets s.issued
    let pending : Pending :=
      { token := ticket.token, operation := w.operation, position := w.cursor.position,
        prompt := w.prompt, target := w.cursor.target, forks := w.cursor.forks,
        createdAt := ticket.time }
    let kept := (s.keep run).emit (.suspended w.operation ticket.token)
    (⟨.suspended ticket.token w.prompt, run.steps, run.halts⟩,
      { kept with
        activity := { kept.activity with pending := some pending }
        issued := s.issued + 1 })

def drive (setting : Setting) (c : Cursor) (run : Run) (s : Session) :
    Report × Session :=
  let (wait, run) := run.walk setting s.activity.toPlan c
  s.close setting wait run

def unknownOperation (id : String) : Failure :=
  .configuration ("unknown operation '" ++ id ++ "'")

-- A new invocation owes nothing to the one before it.
def fresh (s : Session) : Session :=
  { s with activity :=
    { s.activity with
      pending := none, charged := Dict.empty, records := s.activity.records.bind none } }

-- Starts an invocation at the first operation, or at the one that is named, even if it is
-- deferred.
def start (setting : Setting) (origin : Option String) (s : Session) :
    Except Failure Report × Session :=
  match s.activity.validate with
  | .error failure => (.error failure, s)
  | .ok _ =>
    let s := s.fresh
    let begun (position : Nat) : Except Failure Report × Session :=
      let s := s.emit (.runStarted s.activity.id s.activity.operations.length)
      let (report, s) := s.drive setting ⟨position, none, [], origin.isSome⟩ s.run
      (.ok report, s)
    match origin with
    | none => begun 0
    | some id =>
      match s.activity.position? id with
      | some position => begun position
      | none => (.error (unknownOperation id), s)

-- Goes on within the invocation from an operation, even if it is deferred. An unanswered prompt is
-- dropped.
def continueFrom (setting : Setting) (id : String) (s : Session) :
    Except Failure Report × Session :=
  match s.activity.position? id with
  | none => (.error (unknownOperation id), s)
  | some position =>
    let s := s.withoutPending
    let (report, s) :=
      s.drive setting ⟨position, s.activity.records.target?, [], true⟩ s.run
    (.ok report, s)

/-! Answers -/

-- The place where the walk goes on once an operation took its answer; the operation that the
-- answer names is selected.
def afterAnswer (v : Visit) (c : Cursor) (destination : Option String)
    (moved : Move × Run) : Turn × Run :=
  let size := v.plan.order.length
  match moved, destination with
  | (.onward, run), some id =>
    match v.plan.position? id with
    | some position => (.goes { c with position, selected := true }, run)
    | none =>
      (.goes (c.ended size), v.halt c.targetId .configuration
        ("continues from unknown operation '" ++ id ++ "'") run)
  | (move, run), _ => (c.after size v.op.id move, run)

-- The first turn after an answer. A dismissal ends the branch. An answer that the operation does
-- not accept is a failure, and changes nothing but what the operation did by then.
def answered (v : Visit) (c : Cursor) (answer : Answer) (run : Run) :
    Except Failure Turn × Run :=
  let size := v.plan.order.length
  match answer with
  | .dismiss =>
    let failure := Failure.cancelled v.op.id
    (.ok (.goes (c.ended size)), v.halt c.targetId failure.kind failure.text run)
  | _ =>
    match (v.announceStart c.targetId run).act (v.accept answer) with
    | (.error (.rejected id message), run) => (.error (.rejected id message), run)
    | (.error failure, run) =>
      (.ok (.goes (c.ended size)), v.halt c.targetId failure.kind failure.text run)
    | (.ok (outcome, destination), run) =>
      let (turn, run) := afterAnswer v c destination (v.settle c.targetId (.ok outcome) run)
      (.ok turn, run)

def displaced (p : Pending) : Failure :=
  .configuration ("suspended operation '" ++ p.operation ++ "' is no longer at its position")

-- The operation that waits, if it is still where it was.
def waiting? (plan : Plan) (p : Pending) : Option Operation :=
  (plan.order[p.position]?).filter fun op => op.id == p.operation

def proceed (setting : Setting) (turn : Turn) (run : Run) (s : Session) :
    Report × Session :=
  match turn with
  | .goes c => s.drive setting c run
  | .ends => s.close setting none run
  | .waits c operation prompt => s.close setting (some ⟨c, operation, prompt⟩) run

-- Gives the answer to the prompt of this token. The prompt stays when the answer is not accepted.
def resume (setting : Setting) (token : String) (answer : Answer) (s : Session) :
    Except Failure Report × Session :=
  match s.activity.pending with
  | none => (.error .nothingPending, s)
  | some p =>
    if p.token ≠ token then (.error (.unknownToken token), s)
    else
      match waiting? s.activity.toPlan p with
      | none => (.error (displaced p), s)
      | some op =>
        let v := Visit.mk setting s.activity.toPlan op
        let s := s.bind p.target
        match answered v ⟨p.position, p.target, p.forks, true⟩ answer s.run with
        | (.error failure, run) => (.error failure, s.keep run)
        | (.ok turn, run) =>
          let (report, s) := s.withoutPending.proceed setting turn run
          (.ok report, s)

end Session

end Tabletop
