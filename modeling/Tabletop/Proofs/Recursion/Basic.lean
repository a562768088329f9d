import Tabletop.Session

-- The walk told as a recursion. A fork walks on once for each of its targets, with all forks on the
-- way, before it binds the target again that was bound before it. A question takes its answer on
-- the spot.
namespace Tabletop

-- A run with the answers that are still to be given, and the number of tickets that were issued.
structure Play where
  run : Run
  answers : List Answer
  issued : Nat

-- A question that is left without an answer, and the forks around it, the innermost one first.
-- What a fork still owes is what it does after the walk in which the question was asked.
structure Question where
  operation : String
  position : Nat
  prompt : Prompt
  target : Option Snapshot
  forks : List Fork := []

inductive Ending where
  | done
  | asks (q : Question)
  | refused (failure : Failure)

namespace Play

def bind (target : Option Snapshot) (g : Play) : Play := { g with run := g.run.bind target }

-- Issues a ticket for a question of this operation.
def ask (setting : Setting) (operation : String) (g : Play) : Play :=
  { g with
    run := g.run.emit [.suspended operation (setting.tickets g.issued).token]
    issued := g.issued + 1 }

end Play

namespace Recursion

-- Where an answer leads: on from its operation, or to another one.
inductive Way where
  | move (m : Move)
  | jump (position : Nat)

-- An operation that has taken its answer names another one to go on at, or none.
def destined (v : Visit) (target destination : Option String) : Move × Run → Way × Run
  | (.onward, run) =>
    match destination with
    | none => (.move .onward, run)
    | some id =>
      match v.plan.position? id with
      | some position => (.jump position, run)
      | none =>
        (.move .ended, v.halt target .configuration
          ("continues from unknown operation '" ++ id ++ "'") run)
  | (move, run) => (.move move, run)

-- An operation that does not accept the answer refuses to go on, and one that fails on it ends the
-- branch.
def answered (v : Visit) (target : Option String) :
    Except Failure (Outcome × Option String) × Run → Except Failure Way × Run
  | (.error (.rejected id message), run) => (.error (.rejected id message), run)
  | (.error failure, run) => (.ok (.move .ended), v.halt target failure.kind failure.text run)
  | (.ok (outcome, destination), run) =>
    let (way, run) := destined v target destination (v.settle target (.ok outcome) run)
    (.ok way, run)

-- An operation with its answer. Whoever dismisses a question ends the branch.
def reply (v : Visit) (target : Option String) (answer : Answer) (run : Run) :
    Except Failure Way × Run :=
  match answer with
  | .dismiss =>
    let failure := Failure.cancelled v.op.id
    (.ok (.move .ended), v.halt target failure.kind failure.text run)
  | _ => answered v target ((v.announceStart target run).act (v.accept answer))

-- What comes of a walk within a fork: the fork goes on when the walk is done. A question that is
-- left in it leaves the fork as it is.
def within (fork : Fork) (rest : Play → Ending × Play) : Ending × Play → Ending × Play
  | (.done, g) => rest g
  | (.asks q, g) => (.asks { q with forks := q.forks ++ [fork] }, g)
  | (.refused failure, g) => (.refused failure, g)

-- The recursion never gives more answers than there are.
abbrev Result (g : Play) := { r : Ending × Play // r.2.answers.length ≤ g.answers.length }

-- The walk from a position has as far to go as there are operations; so has what follows from an
-- operation, a little less.
def distance (size position : Nat) : Nat :=
  if position < size then 2 * (size - position) + 2 else 0

theorem distance_of_lt {size position : Nat} (h : position < size) :
    2 * (size - position) + 1 < distance size position := by
  rw [distance, if_pos h]
  omega

theorem distance_succ_lt (size position : Nat) :
    distance size (position + 1) < 2 * (size - position) + 1 := by
  rw [distance]
  split <;> omega

variable (setting : Setting) (plan : Plan)

mutual

def walkAux (position : Nat) (target : Option Snapshot) (selected : Bool) (g : Play) : Result g :=
  match h : plan.order[position]? with
  | none => ⟨(.done, g), Nat.le_refl _⟩
  | some op =>
    have : position < plan.order.length := (List.getElem?_eq_some_iff.1 h).1
    let moved := (Visit.mk setting plan op).visit (target.map Snapshot.id) selected g.run
    followAux position op target moved.1 { g with run := moved.2 }
termination_by (g.answers.length, distance plan.order.length position, 0)
decreasing_by
  exact .right _ (.left _ _ (distance_of_lt this))

def followAux (position : Nat) (op : Operation) (target : Option Snapshot) (move : Move)
    (g : Play) : Result g :=
  match move with
  | .onward => walkAux (position + 1) target false g
  | .ended => ⟨(.done, g), Nat.le_refl _⟩
  | .forked targets => eachAux op.id (position + 1) target targets g
  | .waiting prompt =>
    match h : g.answers with
    | [] => ⟨(.asks ⟨op.id, position, prompt, target, []⟩, g.ask setting op.id), Nat.le_refl _⟩
    | answer :: answers =>
      let asked := g.ask setting op.id
      match reply ⟨setting, plan, op⟩ (target.map Snapshot.id) answer asked.run with
      | (.error failure, run) => ⟨(.refused failure, { asked with run, answers }), by simp [h]⟩
      | (.ok (.jump position), run) =>
        let ⟨r, hr⟩ := walkAux position target true { asked with run, answers }
        ⟨r, by simp only [h, List.length_cons] at hr ⊢; omega⟩
      | (.ok (.move move), run) =>
        let ⟨r, hr⟩ := followAux position op target move { asked with run, answers }
        ⟨r, by simp only [h, List.length_cons] at hr ⊢; omega⟩
termination_by (g.answers.length, 2 * (plan.order.length - position) + 1, 0)
decreasing_by
  · exact .right _ (.left _ _ (distance_succ_lt _ _))
  · exact .right _ (.left _ _ (distance_succ_lt _ _))
  · exact .left _ _ (by simp [h])
  · exact .left _ _ (by simp [h])

def eachAux (origin : String) (position : Nat) (outer : Option Snapshot)
    (targets : List Snapshot) (g : Play) : Result g :=
  match targets with
  | [] => ⟨(.done, g.bind outer), Nat.le_refl _⟩
  | target :: targets =>
    match walkAux position (some target) false (g.bind (some target)) with
    | ⟨(.done, g'), h⟩ =>
      let ⟨r, hr⟩ := eachAux origin position outer targets g'
      ⟨r, Nat.le_trans hr h⟩
    | ⟨(.asks q, g'), h⟩ =>
      ⟨(.asks { q with forks := q.forks ++ [⟨origin, position, targets, outer⟩] }, g'), h⟩
    | ⟨(.refused failure, g'), h⟩ => ⟨(.refused failure, g'), h⟩
termination_by (g.answers.length, distance plan.order.length position, targets.length + 1)
decreasing_by
  · exact .right _ (.right _ (by simp))
  · rcases Nat.lt_or_eq_of_le h with hfewer | hsame
    · exact .left _ _ hfewer
    · have hsame : g'.answers.length = g.answers.length := hsame
      rw [hsame]
      exact .right _ (.right _ (by simp))

end

-- Walks from a position on with this target bound. An operation that is selected runs even if it is
-- deferred.
def walk (position : Nat) (target : Option Snapshot) (selected : Bool) (g : Play) :
    Ending × Play :=
  (walkAux setting plan position target selected g).1

-- Goes on from an operation as its visit or its answer says.
def follow (position : Nat) (op : Operation) (target : Option Snapshot) (move : Move)
    (g : Play) : Ending × Play :=
  (followAux setting plan position op target move g).1

-- Walks from a position on for each of the targets, and binds the outer target in the end.
def each (origin : String) (position : Nat) (outer : Option Snapshot) (targets : List Snapshot)
    (g : Play) : Ending × Play :=
  (eachAux setting plan origin position outer targets g).1

-- Goes on from an operation whose question is out. Without an answer that is as far as it goes.
def await (position : Nat) (op : Operation) (target : Option Snapshot) (prompt : Prompt)
    (g : Play) : Ending × Play :=
  match g.answers with
  | [] => (.asks ⟨op.id, position, prompt, target, []⟩, g)
  | answer :: answers =>
    match reply ⟨setting, plan, op⟩ (target.map Snapshot.id) answer g.run with
    | (.error failure, run) => (.refused failure, { g with run, answers })
    | (.ok (.jump position), run) =>
      walk setting plan position target true { g with run, answers }
    | (.ok (.move move), run) =>
      follow setting plan position op target move { g with run, answers }

variable {setting : Setting} {plan : Plan} {position : Nat} {op : Operation}
  {target outer : Option Snapshot} {g : Play}

theorem walk_end (selected : Bool) (h : plan.order[position]? = none) :
    walk setting plan position target selected g = (.done, g) := by
  rw [walk, walkAux]
  split
  · rfl
  · next h' => simp [h] at h'

theorem walk_visit (selected : Bool) (h : plan.order[position]? = some op) :
    walk setting plan position target selected g =
      let moved := (Visit.mk setting plan op).visit (target.map Snapshot.id) selected g.run
      follow setting plan position op target moved.1 { g with run := moved.2 } := by
  rw [walk, walkAux]
  split
  · next h' => simp [h] at h'
  · next op' h' =>
    obtain rfl : op = op' := by simpa [h] using h'
    rfl

@[simp] theorem follow_onward : follow setting plan position op target .onward g =
    walk setting plan (position + 1) target false g := by
  rw [follow, followAux]
  rfl

@[simp] theorem follow_ended : follow setting plan position op target .ended g = (.done, g) := by
  rw [follow, followAux]

@[simp] theorem follow_forked (targets : List Snapshot) :
    follow setting plan position op target (.forked targets) g =
      each setting plan op.id (position + 1) target targets g := by
  rw [follow, followAux]
  rfl

@[simp] theorem follow_waiting (prompt : Prompt) :
    follow setting plan position op target (.waiting prompt) g =
      await setting plan position op target prompt (g.ask setting op.id) := by
  rw [follow, followAux, await]
  dsimp only
  split
  · next h => simp [Play.ask, h]
  · next answer answers h =>
    simp only [Play.ask, h]
    split <;> simp_all [walk, follow]

@[simp] theorem each_nil (origin : String) :
    each setting plan origin position outer [] g = (.done, g.bind outer) := by
  rw [each, eachAux]

theorem each_cons (origin : String) (t : Snapshot) (targets : List Snapshot) :
    each setting plan origin position outer (t :: targets) g =
      within ⟨origin, position, targets, outer⟩
        (each setting plan origin position outer targets)
        (walk setting plan position (some t) false (g.bind (some t))) := by
  rw [each, eachAux, walk]
  split <;> simp_all [within, each]

-- Where an answer leads, as the turn of a cursor.
def turn (size : Nat) (operation : String) (c : Cursor) : Way → Turn
  | .move move => c.after size operation move
  | .jump position => .goes { c with position, selected := true }

theorem afterAnswer_eq (v : Visit) (c : Cursor) (destination : Option String)
    (moved : Move × Run) : Session.afterAnswer v c destination moved =
      (turn v.plan.order.length v.op.id c (destined v c.targetId destination moved).1,
        (destined v c.targetId destination moved).2) := by
  obtain ⟨move, run⟩ := moved
  cases move with
  | onward =>
    cases destination with
    | none => rfl
    | some id =>
      simp only [Session.afterAnswer, destined]
      cases v.plan.position? id <;> rfl
  | _ => rfl

theorem answered_eq_reply (v : Visit) (c : Cursor) (answer : Answer) (run : Run) :
    Session.answered v c answer run =
      ((reply v c.targetId answer run).1.map (turn v.plan.order.length v.op.id c),
        (reply v c.targetId answer run).2) := by
  unfold Session.answered reply
  cases answer with
  | dismiss => rfl
  | _ =>
    dsimp only
    generalize (v.announceStart c.targetId run).act _ = taken
    obtain ⟨result, run'⟩ := taken
    cases result with
    | error failure => cases failure <;> rfl
    | ok accepted =>
      simp only [answered, afterAnswer_eq]
      rfl

end Recursion

end Tabletop
