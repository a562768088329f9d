import Tabletop.Proofs.Session.Calls
import Tabletop.Proofs.Walk.Relating

-- What calls do to the stage of a session, from what visits do to it.
namespace Tabletop.Session

-- Whether a bound on the changes of a stage allows all visits of the operations of a plan and all
-- answers to them, every change of the bound target, and all that is told but the change of a pool.
structure Conducts (setting : Setting) (plan : Plan) (E : Effect) : Prop where
  visits : ∀ op ∈ plan.operations, ∀ target,
    (Visit.mk setting plan op).Conducts target fun run run' => E.Allows run.toStage run'.toStage
  binds : ∀ (s : Stage) target, E.Allows s { s with records := s.records.bind target }
  marks : ∀ (s : Stage) e, ¬ e.ChangesPool → E.Allows s (s.tell e)

-- Whether it allows all that the operations do one by one.
structure Within (setting : Setting) (plan : Plan) (E : Effect) : Prop where
  visits : ∀ op ∈ plan.operations, ∃ O, (Visit.mk setting plan op).Within O E
  binds : ∀ (s : Stage) target, E.Allows s { s with records := s.records.bind target }
  marks : ∀ (s : Stage) e, ¬ e.ChangesPool → E.Allows s (s.tell e)

theorem Within.conducts {setting : Setting} {plan : Plan} {E : Effect}
    (hE : Within setting plan E) : Conducts setting plan E where
  visits op hop target :=
    (hE.visits op hop).elim fun _ hwithin => (hwithin.relates target).conducts
  binds := hE.binds
  marks := hE.marks

variable {setting : Setting} {E : Effect} {s : Session} {run : Run}

theorem conducts_close {plan : Plan} (hE : Conducts setting plan E) (wait : Option Wait) (s : Session)
    (run : Run) : E.Allows run.toStage (s.close setting wait run).2.run.toStage := by
  cases wait with
  | none => exact hE.marks run.toStage _ fun h => h
  | some w => exact hE.marks run.toStage _ fun h => h

theorem conducts_drive (hE : Conducts setting s.activity.toPlan E) (c : Cursor) (run : Run) :
    E.Allows run.toStage (s.drive setting c run).2.run.toStage :=
  E.trans (Run.conducts_walk hE.visits hE.binds c run) (conducts_close hE _ s _)

theorem conducts_proceed (hE : Conducts setting s.activity.toPlan E) (turn : Turn) (run : Run) :
    E.Allows run.toStage (s.proceed setting turn run).2.run.toStage := by
  cases turn with
  | goes c => exact conducts_drive hE c run
  | ends => exact conducts_close hE none s run
  | waits c operation prompt => exact conducts_close hE _ s run

theorem conducts_answered {plan : Plan} (hE : Conducts setting plan E) {op : Operation} {p : Pending}
    (hop : waiting? plan p = some op) {c : Cursor} {answer : Answer} {run run' : Run}
    {result : Except Failure Turn}
    (hanswered : answered ⟨setting, plan, op⟩ c answer run = (result, run')) :
    E.Allows run.toStage run'.toStage := by
  have hmem := List.mem_mergeSort.1 (List.mem_of_getElem? (waiting?_eq_some_iff.1 hop).1)
  have hallowed := (hE.visits op hmem c.targetId).answered answer run
  rwa [hanswered] at hallowed

theorem conducts_call (hE : Conducts setting s.activity.toPlan E) (c : Call) :
    E.Allows s.run.toStage (s.call setting c).2.run.toStage := by
  cases c with
  | start origin =>
    have hfresh : E.Allows s.run.toStage s.fresh.run.toStage := hE.binds _ none
    have hstarting := s.starting setting origin
    rw [call]
    generalize s.start setting origin = called at hstarting ⊢
    cases hstarting with
    | invalid => exact E.refl _
    | unknown => exact hfresh
    | walked =>
      have hbegun : E.Allows s.fresh.run.toStage s.begun.run.toStage := hE.marks _ _ fun h => h
      exact E.trans hfresh (E.trans hbegun (conducts_drive (s := s.begun) hE _ _))
  | continueFrom id =>
    have hcontinuing := s.continuing setting id
    rw [call]
    generalize s.continueFrom setting id = called at hcontinuing ⊢
    cases hcontinuing with
    | unknown => exact E.refl _
    | walked => exact conducts_drive (s := s.withoutPending) hE _ _
  | resume token answer =>
    have hresuming := s.resuming setting token answer
    rw [call]
    generalize s.resume setting token answer = called at hresuming ⊢
    cases hresuming with
    | unasked | unknown | displaced => exact E.refl _
    | @refused p op failure run hp _ hop hanswered =>
      have hbind : E.Allows s.run.toStage (s.bind p.target).run.toStage := hE.binds _ p.target
      have hrefused : E.Allows (s.bind p.target).run.toStage run.toStage :=
        conducts_answered hE hop hanswered
      exact E.trans hbind hrefused
    | @taken p op turn run hp _ hop hanswered =>
      have hbind : E.Allows s.run.toStage (s.bind p.target).run.toStage := hE.binds _ p.target
      exact E.trans hbind (E.trans (conducts_answered hE hop hanswered)
        (conducts_proceed (s := (s.bind p.target).withoutPending) hE turn run))

end Tabletop.Session
