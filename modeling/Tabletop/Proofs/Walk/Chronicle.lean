import Mathlib.Data.List.Forall2
import Tabletop.Proofs.Walk.Cost
import Tabletop.Proofs.Walk.Relating

-- What a host hears of a walk, and what the walk reports. Whatever enters the report is told in the
-- same order, and nothing else is told as if it did.
namespace Tabletop

namespace Event

-- Whether an event tells that an operation was skipped, or how it came out.
def IsStep : Event → Bool
  | .operationSkipped .. => true
  | .operationCompleted .. => true
  | _ => false

-- Whether an event tells of this step of a report.
inductive Enters : Event → StepRecord → Prop where
  | skipped (operation : String) (target : Option String) (reason : String) :
    Enters (.operationSkipped operation reason) ⟨operation, target, .skipped, reason⟩
  | completed (operation : String) (target : Option String) {status : StepStatus}
    (value : Option Json) (notes : String) : status ≠ .skipped →
    Enters (.operationCompleted operation status value) ⟨operation, target, status, notes⟩

-- The halt that an event tells of, if any.
def halt? : Event → Option HaltRecord
  | .branchHalted operation target kind reason => some ⟨operation, target, kind, reason⟩
  | _ => none

-- Whether an event tells that a call is over.
def Closes : Event → Prop
  | .runFinished .. => True
  | .suspended .. => True
  | _ => False

-- Whether an event tells nothing that enters a report, and leaves the call open.
structure IsAside (e : Event) : Prop where
  step : e.IsStep = false
  halt : e.halt? = none
  unclosed : ¬ e.Closes

theorem IsTold.isAside {operation : String} {e : Event} (h : e.IsTold operation) : e.IsAside := by
  cases e <;> first | exact ⟨rfl, rfl, id⟩ | cases h

end Event

-- Whether events of a walk that goes on tell of these steps and these halts, one by one.
structure Chronicle (told : List Event) (steps : List StepRecord) (halts : List HaltRecord) :
    Prop where
  steps : List.Forall₂ Event.Enters (told.filter Event.IsStep) steps
  halts : told.filterMap Event.halt? = halts
  unclosed : ∀ e ∈ told, ¬ e.Closes

namespace Chronicle

variable {told more : List Event} {steps laterSteps : List StepRecord}
  {halts laterHalts : List HaltRecord}

theorem append (h : Chronicle told steps halts) (h' : Chronicle more laterSteps laterHalts) :
    Chronicle (told ++ more) (steps ++ laterSteps) (halts ++ laterHalts) where
  steps := by
    rw [List.filter_append]
    exact List.rel_append h.steps h'.steps
  halts := by rw [List.filterMap_append, h.halts, h'.halts]
  unclosed e he := (List.mem_append.1 he).elim (h.unclosed e) (h'.unclosed e)

theorem aside (h : ∀ e ∈ told, e.IsAside) :
    Chronicle told [] [] where
  steps := by
    rw [List.filter_eq_nil_iff.2 fun e he => by simp [(h e he).step]]
    exact .nil
  halts := List.filterMap_eq_nil_iff.2 fun e he => (h e he).halt
  unclosed e he := (h e he).unclosed

theorem step {e : Event} {step : StepRecord} (h : e.Enters step) : Chronicle [e] [step] [] := by
  cases h with
  | skipped operation target reason =>
    exact ⟨.cons (.skipped operation target reason) .nil, rfl, by simp [Event.Closes]⟩
  | completed operation target value notes hstatus =>
    exact ⟨.cons (.completed operation target value notes hstatus) .nil, rfl,
      by simp [Event.Closes]⟩

end Chronicle

theorem Result.status_ne_skipped (result : Result) : result.status ≠ .skipped := by
  cases result <;> simp [Result.status]

namespace Run

-- Whether the events of a run since earlier ones tell what it reports.
def Accords (earlier : List Event) (run : Run) : Prop :=
  ∃ told, run.events = earlier ++ told ∧ Chronicle told run.steps run.halts

variable {earlier told : List Event} {run run' : Run}

theorem Accords.append {steps : List StepRecord} {halts : List HaltRecord}
    (h : run.Accords earlier) (hmore : Chronicle told steps halts)
    (hevents : run'.events = run.events ++ told) (hsteps : run'.steps = run.steps ++ steps)
    (hhalts : run'.halts = run.halts ++ halts) : run'.Accords earlier := by
  obtain ⟨before, hbefore, hchronicle⟩ := h
  refine ⟨before ++ told, ?_, ?_⟩
  · rw [hevents, hbefore, List.append_assoc]
  · rw [hsteps, hhalts]
    exact hchronicle.append hmore

theorem Accords.aside (h : run.Accords earlier)
    (htold : ∀ e ∈ told, e.IsAside)
    (hevents : run'.events = run.events ++ told) (hsteps : run'.steps = run.steps)
    (hhalts : run'.halts = run.halts) : run'.Accords earlier :=
  h.append (.aside htold) hevents (by rw [hsteps, List.append_nil])
    (by rw [hhalts, List.append_nil])

-- What an operation does tells nothing that enters the report.
theorem Accords.act {operation : String} {a : Act α} {F : Stage → Failure → Prop}
    (ha : a.Does (.telling operation) F) (h : run.Accords earlier) :
    (run.act a).2.Accords earlier := by
  obtain ⟨told, hevents, htold⟩ := (ha run.toStage).1
  exact h.aside (fun e he => (htold e he).isAside) hevents rfl rfl

end Run

namespace Visit

variable {v : Visit} {earlier : List Event}

theorem accords_charge {run : Run} (h : run.Accords earlier) :
    (v.charge run).2.Accords earlier := by
  have hcharging := v.charging run
  generalize v.charge run = charged at hcharging ⊢
  cases hcharging with
  | waived => exact h
  | paid _ hpaid =>
    obtain ⟨told, hevents, htold⟩ := hpaid.events
    rw [List.append_assoc] at hevents
    refine h.aside (fun e he => ?_) hevents rfl rfl
    obtain he | he := List.mem_append.1 he
    · exact (htold e he).isAside
    · rw [List.mem_singleton.1 he]
      exact ⟨rfl, rfl, id⟩
  | refused hasides =>
    obtain ⟨-, -, -, told, hevents, htold⟩ := hasides
    exact h.aside (fun e he => (htold e he).isAside) hevents rfl rfl

-- Each part of a visit tells what it adds to the report.
theorem relates_accords (v : Visit) (target : Option String) (earlier : List Event) :
    v.Relates target (fun _ => True) fun run run' => run.Accords earlier → run'.Accords earlier where
  refl _ := id
  trans h h' := h' ∘ h
  leaves _ _ := trivial
  begins run h := h.act (does_begin v.changes_telling v.failures_true)
  accepts run answer h :=
    h.act (does_accept v.changes_telling v.failures_true (fun _ _ => trivial) (fun _ => trivial)
      answer)
  charges run := accords_charge
  toggles run h := h.act (does_toggle (F := fun _ _ => True) v.toggles_telling)
  starts run h := h.aside (List.forall_mem_singleton.2 ⟨rfl, rfl, id⟩) rfl rfl rfl
  forks run targets h := h.aside (List.forall_mem_singleton.2 ⟨rfl, rfl, id⟩) rfl rfl rfl
  skips run reason h :=
    h.append (.step (.skipped v.op.id target reason)) rfl rfl (List.append_nil _).symm
  halts run kind reason h := by
    have hhalt : Chronicle [.notification kind.level (v.op.label ++ ": " ++ reason),
        .branchHalted v.op.id target kind reason] [] [⟨v.op.id, target, kind, reason⟩] :=
      ⟨.nil, rfl, by simp [Event.Closes]⟩
    exact h.append hhalt rfl (List.append_nil _).symm rfl
  completes run outcome _ h :=
    h.append (.step (.completed v.op.id target outcome.value outcome.notes
      outcome.result.status_ne_skipped)) rfl rfl (List.append_nil _).symm

end Visit

namespace Run

variable {setting : Setting} {plan : Plan} {earlier : List Event} {run : Run}

theorem Accords.walk (h : run.Accords earlier) (c : Cursor) :
    (run.walk setting plan c).2.Accords earlier := by
  have hnext : ∀ c run, run.Accords earlier → (next setting plan c run).2.Accords earlier :=
    relates_next (R := fun run run' => run.Accords earlier → run'.Accords earlier)
      (fun _ => id) (fun op _ target => (Visit.relates_accords _ _ earlier).visit)
      (fun run target => id)
  exact relates_walk (R := fun run run' => run.Accords earlier → run'.Accords earlier)
    (fun h h' => h' ∘ h) hnext c run h

end Run

end Tabletop
