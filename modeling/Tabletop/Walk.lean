import Tabletop.Step
import Tabletop.Walk.Cost
import Tabletop.Walk.Cursor

-- The walk over the operations of an activity, in the order of execution.
namespace Tabletop

-- Where a visit leads: on, to the end of its branch, into a continuation for each of some targets,
-- or nowhere before an answer is given.
inductive Move where
  | onward
  | ended
  | forked (targets : List Snapshot)
  | waiting (prompt : Prompt)

namespace Visit

-- Why the operation may not be performed now.
def obstacle? (v : Visit) : Option String :=
  let allowed := v.op.performance
  match v.setting.actorsTurn with
  | none => if allowed.combatOnly then some "only usable in combat" else none
  | some true => if allowed.ownTurn then none else some "not usable on your own turn"
  | some false =>
    if allowed.othersTurn then none else some "not usable on another combatant's turn"

-- What follows from the way in which an operation came out.
def follow (v : Visit) (target : Option String) (result : Result) (run : Run) : Move × Run :=
  match result with
  | .success => (.onward, (run.act v.toggle).2)
  | .halted reason => (.ended, v.halt target .precondition reason run)
  | .forked targets =>
    (.forked targets, (run.act v.toggle).2.emit [.forked v.op.id (targets.map Snapshot.id)])
  | .suspended prompt => (.waiting prompt, run)

-- A failure ends the branch.
def settle (v : Visit) (target : Option String) (outcome : Except Failure Outcome) (run : Run) :
    Move × Run :=
  match outcome with
  | .ok outcome => v.follow target outcome.result (v.complete target outcome run)
  | .error failure => (.ended, v.halt target failure.kind failure.text run)

-- A deferred operation is passed over unless it is selected. One that may not be performed now is
-- skipped, and any other one is paid for and carried out.
def visit (v : Visit) (target : Option String) (selected : Bool) (run : Run) : Move × Run :=
  if !v.op.immediate && !selected then (.onward, run)
  else
    match v.obstacle? with
    | some reason => (.onward, v.skip target reason run)
    | none =>
      match v.charge run with
      | (.error failure, run) => (.ended, v.halt target failure.kind failure.text run)
      | (.ok (), run) =>
        let (outcome, run) := (v.announceStart target run).act v.begin
        v.settle target outcome run

end Visit

-- What a walk does next: it goes on from another place, or it is over, or it waits for an answer.
inductive Turn where
  | goes (c : Cursor)
  | ends
  | waits (c : Cursor) (operation : String) (prompt : Prompt)

namespace Cursor

def targetId (c : Cursor) : Option String := c.target.map Snapshot.id

-- Where the walk over `size` operations goes after a visit.
def after (size : Nat) (operation : String) (c : Cursor) : Move → Turn
  | .onward => .goes c.onward
  | .ended => .goes (c.ended size)
  | .forked targets => .goes (c.forked size operation targets)
  | .waiting prompt => .waits c operation prompt

end Cursor

namespace Run

-- The next continuation that a fork owes, with its target bound. After the last one the target is
-- bound again that was bound before the outermost fork.
def branch (c : Cursor) (run : Run) : Turn × Run :=
  match Cursor.nextBranch c.forks with
  | some next => (.goes next, run.bind next.target)
  | none =>
    match Cursor.outermost? c.forks with
    | some target => (.ends, run.bind target)
    | none => (.ends, run)

-- Visits the operation at the cursor, or looks for another branch at the end of one.
def next (setting : Setting) (plan : Plan) (c : Cursor) (run : Run) : Turn × Run :=
  match plan.order[c.position]? with
  | some op =>
    let (move, run) := (Visit.mk setting plan op).visit c.targetId c.selected run
    (c.after plan.order.length op.id move, run)
  | none => run.branch c

theorem next_follows {setting : Setting} {plan : Plan} {c c' : Cursor} {run : Run}
    (h : (run.next setting plan c).1 = .goes c') : Cursor.Follows plan.order.length c' c := by
  simp only [next] at h
  split at h
  · next op hop =>
    have hlt : c.position < plan.order.length := (List.getElem?_eq_some_iff.1 hop).1
    generalize (Visit.mk setting plan op).visit c.targetId c.selected run = moved at h
    obtain ⟨move, run'⟩ := moved
    cases move with
    | onward => cases h; exact .onward hlt
    | ended => cases h; exact .ended hlt
    | forked targets => cases h; exact .forked _ _ hlt
    | waiting prompt => cases h
  · next hop =>
    have hge : plan.order.length ≤ c.position := List.getElem?_eq_none_iff.1 hop
    simp only [branch] at h
    split at h
    · next hbranch => cases h; exact .branch hge hbranch
    · split at h <;> cases h

end Run

-- A cursor of a walk over `size` operations; the walk takes it to smaller and smaller ones.
structure Standing (size : Nat) where
  cursor : Cursor

instance (size : Nat) : WellFoundedRelation (Standing size) where
  rel a b := Cursor.Follows size a.cursor b.cursor
  wf := InvImage.wf Standing.cursor (Cursor.follows_wf size)

-- An operation that waits for an answer, and where.
structure Wait where
  cursor : Cursor
  operation : String
  prompt : Prompt

namespace Run

-- The next turn, which never leads to a cursor that is not smaller.
def advance (setting : Setting) (plan : Plan) (c : Cursor) (run : Run) :
    { moved : Turn × Run // ∀ c', moved.1 = .goes c' → Cursor.Follows plan.order.length c' c } :=
  ⟨run.next setting plan c, fun _ => next_follows⟩

-- Goes on until everything is done or an answer is needed.
def walk (setting : Setting) (plan : Plan) (c : Cursor) (run : Run) : Option Wait × Run :=
  match run.advance setting plan c with
  | ⟨(.goes c', run'), h⟩ =>
    have : Cursor.Follows plan.order.length c' c := h c' rfl
    walk setting plan c' run'
  | ⟨(.ends, run'), _⟩ => (none, run')
  | ⟨(.waits c' operation prompt, run'), _⟩ => (some ⟨c', operation, prompt⟩, run')
termination_by (⟨c⟩ : Standing plan.order.length)

end Run

end Tabletop
