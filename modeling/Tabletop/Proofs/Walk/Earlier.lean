import Tabletop.Proofs.Walk.Turns
import Tabletop.Session

-- What was reported before makes no difference to a walk.
namespace Tabletop

-- A run with the steps and halts of an earlier report before its own.
def Run.onto (earlier : Report) (run : Run) : Run :=
  { run with steps := earlier.steps ++ run.steps, halts := earlier.halts ++ run.halts }

-- Both parts of what a visit gives, with the run put onto an earlier report.
def Run.ontoOf (earlier : Report) (moved : α × Run) : α × Run := (moved.1, moved.2.onto earlier)

namespace Run

variable {earlier : Report} {run : Run} {setting : Setting} {plan : Plan} {c : Cursor}

@[simp] theorem records_onto : (run.onto earlier).records = run.records := rfl
@[simp] theorem charged_onto : (run.onto earlier).charged = run.charged := rfl

@[simp] theorem act_onto (a : Act α) : (run.onto earlier).act a = ontoOf earlier (run.act a) := rfl

@[simp] theorem emit_onto (events : List Event) :
    (run.onto earlier).emit events = (run.emit events).onto earlier := rfl

@[simp] theorem bind_onto (target : Option Snapshot) :
    (run.onto earlier).bind target = (run.bind target).onto earlier := rfl

end Run

namespace Visit

variable {earlier : Report} {run : Run} {v : Visit} {target : Option String}

@[simp] theorem halt_onto (kind : FailureKind) (reason : String) :
    v.halt target kind reason (run.onto earlier) =
      (v.halt target kind reason run).onto earlier := by
  simp [halt, Run.onto, Run.emit]

@[simp] theorem skip_onto (reason : String) :
    v.skip target reason (run.onto earlier) = (v.skip target reason run).onto earlier := by
  simp [skip, Run.onto, Run.emit]

@[simp] theorem announceStart_onto :
    v.announceStart target (run.onto earlier) = (v.announceStart target run).onto earlier := rfl

@[simp] theorem complete_onto (outcome : Outcome) :
    v.complete target outcome (run.onto earlier) =
      (v.complete target outcome run).onto earlier := by
  simp [complete, Run.onto, Run.emit]

theorem charge_onto : v.charge (run.onto earlier) = Run.ontoOf earlier (v.charge run) := by
  cases hfree : !v.setting.costsApply || v.op.costs.isFree || Dict.contains run.charged v.op.id with
  | true => simp only [charge, Run.charged_onto, hfree, if_true, Run.ontoOf]
  | false =>
    simp only [charge, Run.charged_onto, hfree, Bool.false_eq_true, if_false, Run.act_onto]
    obtain ⟨result, run'⟩ := run.act v.pay
    cases result <;> rfl

theorem follow_onto (result : Result) : v.follow target result (run.onto earlier) =
    Run.ontoOf earlier (v.follow target result run) := by
  cases result with
  | halted reason => simp [follow, Run.ontoOf]
  | _ => rfl

theorem settle_onto (outcome : Except Failure Outcome) :
    v.settle target outcome (run.onto earlier) =
      Run.ontoOf earlier (v.settle target outcome run) := by
  cases outcome with
  | ok outcome => simp only [settle, complete_onto, follow_onto]
  | error failure => simp [settle, Run.ontoOf]

theorem visit_onto (selected : Bool) : v.visit target selected (run.onto earlier) =
    Run.ontoOf earlier (v.visit target selected run) := by
  by_cases hdeferred : !v.op.immediate && !selected
  · simp only [visit, if_pos hdeferred]
    rfl
  · simp only [visit, if_neg hdeferred]
    cases v.obstacle? with
    | some reason => simp [Run.ontoOf]
    | none =>
      simp only [charge_onto]
      obtain ⟨paid, run'⟩ := v.charge run
      cases paid with
      | error failure => simp [Run.ontoOf]
      | ok =>
        simp only [Run.ontoOf, announceStart_onto, Run.act_onto, settle_onto]

end Visit

namespace Run

variable {earlier : Report} {run : Run} {setting : Setting} {plan : Plan} {c : Cursor}

theorem branch_onto : (run.onto earlier).branch c = ontoOf earlier (run.branch c) := by
  simp only [branch]
  cases Cursor.nextBranch c.forks with
  | some next => rfl
  | none => cases Cursor.outermost? c.forks <;> rfl

theorem next_onto : (run.onto earlier).next setting plan c =
    ontoOf earlier (run.next setting plan c) := by
  simp only [next]
  cases plan.order[c.position]? with
  | some op => simp only [Visit.visit_onto, ontoOf]
  | none => exact branch_onto

theorem walk_onto (c : Cursor) (run : Run) : (run.onto earlier).walk setting plan c =
    ontoOf earlier (run.walk setting plan c) := by
  induction c, run using walk_induction setting plan with
  | goes c run c' run' hnext ih =>
    rw [walk_of_goes (by rw [next_onto, hnext]; rfl), ih]
  | ends c run run' hnext =>
    rw [walk_of_ends (by rw [next_onto, hnext]; rfl)]
    rfl
  | waits c run c' operation prompt run' hnext =>
    rw [walk_of_waits (by rw [next_onto, hnext]; rfl)]
    rfl

end Run

end Tabletop
