import Tabletop.Proofs.Recursion.Basic
import Tabletop.Proofs.Step.Effects
import Tabletop.Proofs.Walk.Turns

-- What visits, answers and walks make of a run, from what their parts make of it. The parts are
-- gone through once, for any relation between the run before and the run after.
namespace Tabletop

-- Whether carrying the operation out, or answering it, may leave this outcome.
def Visit.Leaves (v : Visit) (outcome : Outcome) : Prop :=
  (∃ s s', v.begin.run s = (.ok outcome, s')) ∨
    ∃ answer destination s s', (v.accept answer).run s = (.ok (outcome, destination), s')

-- Whether every part of a visit with this target, and of an answer, relates the run before to the
-- run after. To carry the operation out and to follow from how it came out is one part.
structure Visit.Conducts (v : Visit) (target : Option String) (R : Run → Run → Prop) : Prop where
  refl : ∀ run, R run run
  trans : ∀ {run run' run''}, R run run' → R run' run'' → R run run''
  charges : ∀ run, R run (v.charge run).2
  starts : ∀ run, R run (v.announceStart target run)
  skips : ∀ run reason, R run (v.skip target reason run)
  halts : ∀ run kind reason, R run (v.halt target kind reason run)
  performs : ∀ run, R run (v.settle target (run.act v.begin).1 (run.act v.begin).2).2
  takes : ∀ run answer, R run (Recursion.answered v target (run.act (v.accept answer))).2

namespace Visit.Conducts

variable {v : Visit} {target : Option String} {R : Run → Run → Prop}

theorem visit (h : v.Conducts target R) (selected : Bool) (run : Run) :
    R run (v.visit target selected run).2 := by
  unfold Visit.visit
  split
  · exact h.refl run
  · split
    · exact h.skips run _
    · have hcharge := h.charges run
      split
      · next hpay =>
        rw [hpay] at hcharge
        exact h.trans hcharge (h.halts _ _ _)
      · next run' hpay =>
        rw [hpay] at hcharge
        exact h.trans hcharge (h.trans (h.starts run') (h.performs _))

theorem reply (h : v.Conducts target R) (answer : Answer) (run : Run) :
    R run (Recursion.reply v target answer run).2 := by
  unfold Recursion.reply
  split
  · exact h.halts run _ _
  · exact h.trans (h.starts run) (h.takes _ answer)

theorem answered {c : Cursor} (h : v.Conducts c.targetId R) (answer : Answer) (run : Run) :
    R run (Session.answered v c answer run).2 := by
  rw [Recursion.answered_eq_reply]
  exact h.reply answer run

end Visit.Conducts

-- The same of the parts of these, where the operation only leaves outcomes of some kind.
structure Visit.Relates (v : Visit) (target : Option String) (O : Outcome → Prop)
    (R : Run → Run → Prop) : Prop where
  refl : ∀ run, R run run
  trans : ∀ {run run' run''}, R run run' → R run' run'' → R run run''
  leaves : ∀ outcome, v.Leaves outcome → O outcome
  begins : ∀ run, R run (run.act v.begin).2
  accepts : ∀ run answer, R run (run.act (v.accept answer)).2
  charges : ∀ run, R run (v.charge run).2
  toggles : ∀ run, R run (run.act v.toggle).2
  starts : ∀ run, R run (v.announceStart target run)
  forks : ∀ run targets, R run (run.emit [.forked v.op.id targets])
  skips : ∀ run reason, R run (v.skip target reason run)
  halts : ∀ run kind reason, R run (v.halt target kind reason run)
  completes : ∀ run outcome, O outcome → R run (v.complete target outcome run)

section

variable {v : Visit} {target : Option String} {O : Outcome → Prop} {R : Run → Run → Prop}

theorem Visit.leaves_begin {run : Run} {outcome : Outcome}
    (h : (run.act v.begin).1 = .ok outcome) : v.Leaves outcome :=
  .inl ⟨run.toStage, (v.begin.run run.toStage).2, Prod.ext h rfl⟩

theorem Visit.leaves_accept {run : Run} {answer : Answer} {outcome : Outcome}
    {destination : Option String} (h : (run.act (v.accept answer)).1 = .ok (outcome, destination)) :
    v.Leaves outcome :=
  .inr ⟨answer, destination, run.toStage, ((v.accept answer).run run.toStage).2, Prod.ext h rfl⟩

namespace Visit.Relates

theorem settle (h : v.Relates target O R) (run : Run) {outcome : Except Failure Outcome}
    (houtcome : ∀ o, outcome = .ok o → O o) : R run (v.settle target outcome run).2 := by
  cases outcome with
  | error failure => exact h.halts run _ _
  | ok outcome =>
    have hcomplete := h.completes run outcome (houtcome outcome rfl)
    simp only [Visit.settle]
    cases outcome.result with
    | success => exact h.trans hcomplete (h.toggles _)
    | halted reason => exact h.trans hcomplete (h.halts _ _ _)
    | forked targets => exact h.trans hcomplete (h.trans (h.toggles _) (h.forks _ _))
    | suspended prompt => exact hcomplete

theorem destined (h : v.Relates target O R) (destination : Option String) (moved : Move × Run) :
    R moved.2 (Recursion.destined v target destination moved).2 := by
  obtain ⟨move, run⟩ := moved
  cases move with
  | onward =>
    cases destination with
    | none => exact h.refl run
    | some id =>
      simp only [Recursion.destined]
      split
      · exact h.refl run
      · exact h.halts run _ _
  | _ => exact h.refl run

theorem conducts (h : v.Relates target O R) : v.Conducts target R where
  refl := h.refl
  trans := h.trans
  charges := h.charges
  starts := h.starts
  skips := h.skips
  halts := h.halts
  performs run :=
    h.trans (h.begins run) (h.settle _ fun outcome ho => h.leaves outcome (leaves_begin ho))
  takes run answer := by
    have haccept := h.accepts run answer
    have hleaves : ∀ outcome destination,
        (run.act (v.accept answer)).1 = .ok (outcome, destination) → v.Leaves outcome :=
      fun _ _ => leaves_accept
    generalize run.act (v.accept answer) = taken at haccept hleaves ⊢
    unfold Recursion.answered
    split
    · exact haccept
    · exact h.trans haccept (h.halts _ _ _)
    · next outcome destination run' =>
      refine h.trans haccept (h.trans (h.settle _ fun o ho => ?_) (h.destined destination _))
      cases ho
      exact h.leaves outcome (hleaves _ _ rfl)

theorem visit (h : v.Relates target O R) (selected : Bool) (run : Run) :
    R run (v.visit target selected run).2 :=
  h.conducts.visit selected run

theorem reply (h : v.Relates target O R) (answer : Answer) (run : Run) :
    R run (Recursion.reply v target answer run).2 :=
  h.conducts.reply answer run

theorem answered {c : Cursor} (h : v.Relates c.targetId O R) (answer : Answer) (run : Run) :
    R run (Session.answered v c answer run).2 :=
  h.conducts.answered answer run

end Visit.Relates

end

/-! Changes of the stage -/

theorem Visit.allows_charge {v : Visit} {E : Effect} (hE : v.Updates E)
    (hcharged : ∀ (s : Stage) pool points breath,
      E.Allows s (s.tell (.costCharged v.op.id pool points breath))) (run : Run) :
    E.Allows run.toStage (v.charge run).2.toStage := by
  unfold charge
  split
  · exact E.refl _
  · have hpaid : E.Allows run.toStage (run.act v.pay).2.toStage :=
      (does_pay hE v.failures_true hcharged run.toStage).1
    split
    · next hpay => rwa [hpay] at hpaid
    · next hpay => rwa [hpay] at hpaid

-- Whether a bound on the changes of a stage allows all that a visit and an answer can do, where the
-- operation only leaves outcomes of some kind.
structure Visit.Within (v : Visit) (O : Outcome → Prop) (E : Effect) : Prop extends
    v.Changes E, v.Toggles E where
  leaves : ∀ outcome, v.Leaves outcome → O outcome
  marks : ∀ (s : Stage) e, ¬ e.ChangesPool → E.Allows s (s.tell e)
  records : ∀ (s : Stage) outcome, O outcome →
    E.Allows s { s with records := v.record outcome s.records }

namespace Visit.Within

variable {v : Visit} {O : Outcome → Prop} {E : Effect}

theorem emit (h : v.Within O E) (s : Stage) {events : List Event}
    (hevents : ∀ e ∈ events, ¬ e.ChangesPool) :
    E.Allows s { s with events := s.events ++ events } := by
  induction events generalizing s with
  | nil => simpa using E.refl s
  | cons e events ih =>
    rw [List.forall_mem_cons] at hevents
    simpa [Stage.tell] using E.trans (h.marks s e hevents.1) (ih (s.tell e) hevents.2)

theorem relates (h : v.Within O E) (target : Option String) :
    v.Relates target O fun run run' => E.Allows run.toStage run'.toStage where
  refl _ := E.refl _
  trans := E.trans
  leaves := h.leaves
  begins run := (does_begin h.toChanges v.failures_true run.toStage).1
  accepts run answer :=
    (does_accept h.toChanges v.failures_true (fun _ _ => trivial) (fun _ => trivial) answer
      run.toStage).1
  charges run := allows_charge h.toUpdates (fun s _ _ _ => h.marks s _ fun hpool => hpool) run
  toggles run := (does_toggle (F := fun _ _ => True) h.toToggles run.toStage).1
  starts run := h.marks _ _ fun hpool => hpool
  forks run targets := h.marks _ _ fun hpool => hpool
  skips run reason := h.marks _ _ fun hpool => hpool
  halts run kind reason := h.emit _ (by simp [Event.ChangesPool])
  completes run outcome houtcome :=
    E.trans (h.records run.toStage outcome houtcome) (h.marks _ _ fun hpool => hpool)

end Visit.Within

/-! Walks -/

namespace Run

variable {setting : Setting} {plan : Plan} {R : Run → Run → Prop}

-- What all visits and every change of the bound target make of a run, a turn does.
theorem relates_next (hrefl : ∀ run, R run run)
    (hvisit : ∀ op ∈ plan.operations, ∀ target selected run,
      R run ((Visit.mk setting plan op).visit target selected run).2)
    (hbind : ∀ run target, R run (run.bind target)) (c : Cursor) (run : Run) :
    R run (run.next setting plan c).2 := by
  unfold next
  split
  · next op hop => exact hvisit op (List.mem_mergeSort.1 (List.mem_of_getElem? hop)) _ _ run
  · unfold branch
    split
    · exact hbind run _
    · split
      · exact hbind run _
      · exact hrefl run

-- What all turns make of a run, a walk does.
theorem relates_walk
    (htrans : ∀ {run run' run''}, R run run' → R run' run'' → R run run'')
    (hnext : ∀ c run, R run (run.next setting plan c).2) (c : Cursor) (run : Run) :
    R run (run.walk setting plan c).2 := by
  induction c, run using walk_induction setting plan with
  | goes c run c' run' h ih => exact htrans (by simpa [h] using hnext c run) ih
  | ends c run run' h => simpa [h] using hnext c run
  | waits c run c' operation prompt run' h => simpa [h] using hnext c run

theorem conducts_walk {E : Effect}
    (hv : ∀ op ∈ plan.operations, ∀ target, (Visit.mk setting plan op).Conducts target fun run run' =>
      E.Allows run.toStage run'.toStage)
    (hbind : ∀ (s : Stage) target, E.Allows s { s with records := s.records.bind target })
    (c : Cursor) (run : Run) : E.Allows run.toStage (run.walk setting plan c).2.toStage := by
  have hnext : ∀ c run, E.Allows run.toStage (next setting plan c run).2.toStage :=
    relates_next (R := fun run run' => E.Allows run.toStage run'.toStage) (fun _ => E.refl _)
      (fun op hop target => (hv op hop target).visit) fun run => hbind run.toStage
  exact relates_walk (R := fun run run' => E.Allows run.toStage run'.toStage) E.trans hnext c run

theorem within_walk {E : Effect}
    (hv : ∀ op ∈ plan.operations, ∃ O, (Visit.mk setting plan op).Within O E)
    (hbind : ∀ (s : Stage) target, E.Allows s { s with records := s.records.bind target })
    (c : Cursor) (run : Run) : E.Allows run.toStage (run.walk setting plan c).2.toStage :=
  conducts_walk (fun op hop target =>
    (hv op hop).elim fun _ hwithin => (hwithin.relates target).conducts) hbind c run

end Run

end Tabletop
