import Tabletop.Proofs.Recursion.Basic
import Tabletop.Proofs.Walk.Binding

-- A walk with a stack of forks does what the recursion does within these forks.
namespace Tabletop

namespace Play

theorem bind_bind {g : Play} (target other : Option Snapshot) :
    (g.bind other).bind target = g.bind target := by
  simp only [bind, Run.bind, Records.bind_bind]

theorem bind_of_bound {g : Play} {target : Option Snapshot} (h : g.run.records.Bound target) :
    g.bind target = g := by
  simp only [bind, Run.bind, h.bind_eq]

end Play

namespace Recursion

variable (setting : Setting) (plan : Plan)

-- What forks make of a walk within them, the innermost one first.
def unwind : List Fork → Ending × Play → Ending × Play
  | [], r => r
  | fork :: outer, r =>
    unwind outer (within fork
      (each setting plan fork.origin fork.resumeAt fork.outerTarget fork.remaining) r)

-- The walk from a cursor to the end of its forks.
def ahead (c : Cursor) (g : Play) : Ending × Play :=
  unwind setting plan c.forks (walk setting plan c.position c.target c.selected g)

-- What is ahead of a turn.
def aheadOf (g : Play) : Turn → Ending × Play
  | .goes c => ahead setting plan c g
  | .ends => (.done, g)
  | .waits c _ prompt =>
    match plan.order[c.position]? with
    | some op => unwind setting plan c.forks (follow setting plan c.position op c.target
        (.waiting prompt) g)
    | none => (.done, g)

variable {setting : Setting} {plan : Plan} {forks : List Fork} {g : Play} {c : Cursor}

@[simp] theorem unwind_asks (q : Question) : unwind setting plan forks (.asks q, g) =
    (.asks { q with forks := q.forks ++ forks }, g) := by
  induction forks generalizing q with
  | nil => simp [unwind]
  | cons fork outer ih => simp [unwind, within, ih]

@[simp] theorem unwind_refused (failure : Failure) :
    unwind setting plan forks (.refused failure, g) = (.refused failure, g) := by
  induction forks with
  | nil => rfl
  | cons fork outer ih => simpa [unwind, within] using ih

-- Forks that owe nothing bind their outer targets one after the other, so that the last one stays.
theorem unwind_over (h : Cursor.nextBranch forks = none) : unwind setting plan forks (.done, g) =
    (.done, match Cursor.outermost? forks with
      | some target => g.bind target
      | none => g) := by
  induction forks generalizing g with
  | nil => rfl
  | cons fork outer ih =>
    obtain ⟨origin, resumeAt, remaining, outerTarget⟩ := fork
    cases remaining with
    | nil =>
      simp only [Cursor.nextBranch] at h
      simp only [unwind, within, each_nil, ih h, Cursor.outermost?]
      cases Cursor.outermost? outer with
      | some target => simp [Play.bind_bind]
      | none => rfl
    | cons target remaining => simp [Cursor.nextBranch] at h

-- The innermost fork that owes anything takes its next target.
theorem unwind_branch {next : Cursor} (h : Cursor.nextBranch forks = some next) :
    unwind setting plan forks (.done, g) = ahead setting plan next (g.bind next.target) := by
  induction forks generalizing g with
  | nil => simp [Cursor.nextBranch] at h
  | cons fork outer ih =>
    obtain ⟨origin, resumeAt, remaining, outerTarget⟩ := fork
    cases remaining with
    | nil =>
      simp only [Cursor.nextBranch] at h
      simp only [unwind, within, each_nil, ih h, Play.bind_bind]
    | cons target remaining =>
      simp only [Cursor.nextBranch, Option.some.injEq] at h
      subst h
      simp only [ahead, unwind, within, each_cons]

theorem ahead_end (selected : Bool) (target : Option Snapshot) :
    ahead setting plan ⟨plan.order.length, target, forks, selected⟩ g =
      unwind setting plan forks (.done, g) := by
  rw [ahead, walk_end _ (List.getElem?_eq_none (Nat.le_refl _))]

-- A turn goes on as the recursion follows the move.
theorem aheadOf_after {op : Operation} (hop : plan.order[c.position]? = some op)
    (hbound : g.run.records.Bound c.target) (move : Move) :
    aheadOf setting plan g (c.after plan.order.length op.id move) =
      unwind setting plan c.forks (follow setting plan c.position op c.target move g) := by
  cases move with
  | onward => simp only [Cursor.after, aheadOf, Cursor.onward, ahead, follow_onward]
  | ended => simp only [Cursor.after, aheadOf, Cursor.ended, ahead_end, follow_ended]
  | forked targets =>
    cases targets with
    | nil =>
      simp only [Cursor.after, aheadOf, Cursor.forked, List.isEmpty_nil, if_true, Cursor.ended,
        ahead_end, follow_forked, each_nil, Play.bind_of_bound hbound]
    | cons target targets =>
      simp only [Cursor.after, aheadOf, Cursor.forked, List.isEmpty_cons, Bool.false_eq_true,
        if_false, Cursor.ended, ahead_end, follow_forked, unwind, within]
  | waiting prompt => simp only [Cursor.after, aheadOf, hop]

theorem ahead_next (hspares : plan.Spares) (hbound : g.run.records.Bound c.target) :
    ahead setting plan c g = aheadOf setting plan
      { g with run := (g.run.next setting plan c).2 } (g.run.next setting plan c).1 := by
  simp only [Run.next]
  split
  · next op hop =>
    rw [ahead, walk_visit _ hop]
    have hallows := (hspares.of_order hop).allows c.target
    exact (aheadOf_after hop (Visit.keeps_visit _ hallows _ hbound) _).symm
  · next hop =>
    rw [ahead, walk_end _ hop, Run.branch]
    split
    · next next hnext => rw [unwind_branch hnext]; rfl
    · next hnext =>
      rw [unwind_over hnext]
      split <;> simp_all [aheadOf, Play.bind]

-- Where the walk of a cursor stops, the recursion has come to the same point.
theorem ahead_walk (hspares : plan.Spares) (c : Cursor) (run : Run) (answers : List Answer)
    (issued : Nat) (hbound : run.records.Bound c.target) :
    ahead setting plan c ⟨run, answers, issued⟩ =
      aheadOf setting plan ⟨(run.walk setting plan c).2, answers, issued⟩
        (match (run.walk setting plan c).1 with
          | some w => .waits w.cursor w.operation w.prompt
          | none => .ends) := by
  induction c, run using Run.walk_induction setting plan with
  | goes c run c' run' hnext ih =>
    have hturn := Run.bound_next setting hspares hbound
    rw [hnext] at hturn
    rw [ahead_next hspares hbound, hnext]
    exact ih hturn
  | ends c run run' hnext => rw [ahead_next hspares hbound, hnext]
  | waits c run c' operation prompt run' hnext => rw [ahead_next hspares hbound, hnext]

end Recursion

end Tabletop
