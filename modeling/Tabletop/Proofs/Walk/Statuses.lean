import Tabletop.Proofs.Step.Statuses
import Tabletop.Proofs.Walk.Stops

-- The statuses that visits and answers flip, told by the steps that they report.
namespace Tabletop

-- Whether the statuses of an operation flip with this step.
def StepRecord.succeeds (step : StepRecord) : Bool :=
  step.status = .success || step.status = .forked

-- How often a status is flipped by steps of operations.
def flips (status : String) (entries : List (Operation × StepRecord)) : Nat :=
  ((entries.filter fun entry => entry.2.succeeds).map
    fun entry => entry.1.toggles.statuses.count status).sum

theorem flips_append (status : String) (entries more : List (Operation × StepRecord)) :
    flips status (entries ++ more) = flips status entries + flips status more := by
  simp [flips]

theorem flips_of_succeeds {op : Operation} {step : StepRecord} (h : step.succeeds = true)
    (status : String) : flips status [(op, step)] = op.toggles.statuses.count status := by
  simp [flips, h]

theorem flips_of_not_succeeds {op : Operation} {step : StepRecord} (h : step.succeeds = false)
    (status : String) : flips status [(op, step)] = 0 := by
  simp [flips, h]

-- Whether the statuses of the actor are flipped from one world to another as these steps say.
def World.Flips (actor : String) (entries : List (Operation × StepRecord)) (w w' : World) : Prop :=
  ∀ before, w.Bears actor before → ∃ after, w'.Bears actor after ∧
    ∀ status, Dict.contains after status =
      flipped (Dict.contains before status) (flips status entries)

namespace World.Flips

variable {actor : String} {entries more : List (Operation × StepRecord)} {w w' w'' : World}

theorem of_bears (h : ∀ statuses, w.Bears actor statuses → w'.Bears actor statuses) :
    w.Flips actor [] w' :=
  fun before hbefore => ⟨before, h before hbefore, fun status => by simp [flips]⟩

theorem trans (h : w.Flips actor entries w') (h' : w'.Flips actor more w'') :
    w.Flips actor (entries ++ more) w'' := by
  intro before hbefore
  obtain ⟨middle, hmiddle, hflips⟩ := h before hbefore
  obtain ⟨after, hafter, hmore⟩ := h' middle hmiddle
  refine ⟨after, hafter, fun status => ?_⟩
  rw [hmore, hflips, flips_append, flipped_add]

end World.Flips

-- Whether a run enters steps of an operation into the report, and the statuses of the actor are
-- flipped as they say.
def Run.Flips (actor : String) (op : Operation) (run run' : Run) : Prop :=
  ∃ more, run'.steps = run.steps ++ more ∧
    run.world.Flips actor (more.map fun step => (op, step)) run'.world

namespace Run.Flips

variable {actor : String} {op : Operation} {run run' run'' : Run}

theorem of_bears (hsteps : run'.steps = run.steps)
    (h : ∀ statuses, run.world.Bears actor statuses → run'.world.Bears actor statuses) :
    run.Flips actor op run' :=
  ⟨[], by rw [hsteps, List.append_nil], .of_bears h⟩

theorem refl (run : Run) : run.Flips actor op run := of_bears rfl fun _ => id

theorem trans (h : run.Flips actor op run') (h' : run'.Flips actor op run'') :
    run.Flips actor op run'' := by
  obtain ⟨steps, hsteps, hflips⟩ := h
  obtain ⟨more, hmore, hflips'⟩ := h'
  refine ⟨steps ++ more, by rw [hmore, hsteps, List.append_assoc], ?_⟩
  rw [List.map_append]
  exact hflips.trans hflips'

-- A step that does not succeed leaves the statuses as they are, and one that does flips them.
theorem of_not_succeeds {step : StepRecord} (hstep : step.succeeds = false)
    (hsteps : run'.steps = run.steps ++ [step]) (hworld : run'.world = run.world) :
    run.Flips actor op run' := by
  refine ⟨[step], hsteps, fun before hbefore => ⟨before, hworld ▸ hbefore, fun status => ?_⟩⟩
  rw [List.map_singleton, flips_of_not_succeeds hstep, flipped_zero]

theorem of_succeeds {step : StepRecord} (hstep : step.succeeds = true)
    (hsteps : run'.steps = run.steps ++ [step])
    (hworld : ∀ statuses, run.world.Bears actor statuses →
      run'.world.Bears actor (op.toggles.statuses.foldl Names.flip statuses)) :
    run.Flips actor op run' := by
  refine ⟨[step], hsteps, fun before hbefore => ⟨_, hworld before hbefore, fun status => ?_⟩⟩
  rw [Names.contains_flips, List.map_singleton, flips_of_succeeds hstep]

end Run.Flips

namespace Visit

variable {v : Visit} {actor : String}

theorem flips_act {F : Stage → Failure → Prop} {a : Act α}
    (ha : ∀ statuses, a.Does (.keeping fun s => s.world.Bears actor statuses) F) (run : Run) :
    run.Flips actor v.op (run.act a).2 :=
  .of_bears rfl fun statuses h => (ha statuses run.toStage).1 h

theorem flips_begin (h : v.setting.Spares actor) (run : Run) :
    run.Flips actor v.op (run.act v.begin).2 :=
  flips_act (fun statuses => does_begin (v.changes_bears h statuses) v.failures_true) run

theorem flips_accept (h : v.setting.Spares actor) (answer : Answer) (run : Run) :
    run.Flips actor v.op (run.act (v.accept answer)).2 :=
  flips_act (fun statuses => does_accept (v.changes_bears h statuses) v.failures_true
    (fun _ _ => trivial) (fun _ => trivial) answer) run

theorem flips_charge (h : v.setting.Spares actor) (run : Run) :
    run.Flips actor v.op (v.charge run).2 :=
  .of_bears (v.charge_keeps run).2.2.1 fun statuses hbears =>
    v.allows_charge (v.changes_bears h statuses).toUpdates (fun _ _ _ _ hs => hs) run hbears

theorem flips_halt (target : Option String) (kind : FailureKind) (reason : String) (run : Run) :
    run.Flips actor v.op (v.halt target kind reason run) :=
  .of_bears rfl fun _ => id

-- An operation that succeeds or forks flips its statuses once.
theorem flips_settle (h : v.setting.Spares actor) (target : Option String)
    (outcome : Except Failure Outcome) (run : Run) :
    run.Flips actor v.op (v.settle target outcome run).2 := by
  cases outcome with
  | error failure => exact flips_halt target _ _ run
  | ok outcome =>
    have htoggle : ∀ statuses, run.world.Bears actor statuses →
        ((v.complete target outcome run).act v.toggle).2.world.Bears actor
          (v.op.toggles.statuses.foldl Names.flip statuses) :=
      fun statuses hbears => v.bears_toggle h hbears
    obtain ⟨result, value, fields, notes⟩ := outcome
    cases result with
    | success => exact .of_succeeds rfl rfl htoggle
    | halted reason =>
      have hcomplete : run.Flips actor v.op
          (v.complete target ⟨.halted reason, value, fields, notes⟩ run) :=
        .of_not_succeeds rfl rfl rfl
      exact hcomplete.trans (flips_halt target _ _ _)
    | forked targets => exact .of_succeeds rfl rfl htoggle
    | suspended prompt => exact .of_not_succeeds rfl rfl rfl

theorem flips_destined (target destination : Option String) (moved : Move × Run) :
    moved.2.Flips actor v.op (Recursion.destined v target destination moved).2 := by
  obtain ⟨move, run⟩ := moved
  cases move with
  | onward =>
    cases destination with
    | none => exact .refl run
    | some id =>
      simp only [Recursion.destined]
      split
      · exact .refl run
      · exact flips_halt target _ _ run
  | _ => exact .refl run

theorem conducts_flips (h : v.setting.Spares actor) (target : Option String) :
    v.Conducts target (Run.Flips actor v.op) where
  refl := .refl
  trans := .trans
  charges := flips_charge h
  starts _ := .of_bears rfl fun _ => id
  skips run reason := .of_not_succeeds rfl rfl rfl
  halts run kind reason := flips_halt target kind reason run
  performs run := (flips_begin h run).trans (flips_settle h target _ _)
  takes run answer := by
    have haccept := flips_accept h answer run
    generalize run.act (v.accept answer) = taken at haccept ⊢
    unfold Recursion.answered
    split
    · exact haccept
    · exact haccept.trans (flips_halt target _ _ _)
    · exact haccept.trans ((flips_settle h target _ _).trans (flips_destined target _ _))

end Visit

namespace Stop

-- The steps that are reported of a stop, with its operation.
def entries (stop : Stop) : List (Operation × StepRecord) :=
  stop.steps.map fun step => (stop.op, step)

theorem flips_of_after {actor : String} (stop : Stop)
    (h : stop.before.Flips actor stop.op stop.after) :
    stop.before.world.Flips actor stop.entries stop.after.world := by
  obtain ⟨more, hsteps, hflips⟩ := h
  rwa [entries, steps, hsteps, List.drop_left]

theorem flips_ofVisit {v : Visit} {actor : String} (h : v.setting.Spares actor) (c : Cursor)
    (run : Run) : run.world.Flips actor (ofVisit v c run).entries (ofVisit v c run).after.world :=
  flips_of_after (ofVisit v c run) ((v.conducts_flips h c.targetId).visit c.selected run)

theorem flips_ofAnswer {v : Visit} {actor : String} (h : v.setting.Spares actor) (c : Cursor)
    (answer : Answer) (run : Run) :
    run.world.Flips actor (ofAnswer v c answer run).entries (ofAnswer v c answer run).after.world :=
  flips_of_after (ofAnswer v c answer run)
    ((v.conducts_flips h c.targetId).answered answer run)

end Stop

end Tabletop
