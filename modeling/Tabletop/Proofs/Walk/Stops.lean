import Tabletop.Proofs.Walk.Cost
import Tabletop.Proofs.Walk.Places

-- The operations that a walk comes to. Everything that it reports was reported at one of them.
namespace Tabletop

-- Whether a run reports nothing beyond what another one does but for one operation with one target.
structure Run.Adds (operation : String) (target : Option String) (run run' : Run) : Prop where
  steps : ∃ more, run'.steps = run.steps ++ more ∧
    ∀ r ∈ more, r.operation = operation ∧ r.target = target
  halts : ∃ more, run'.halts = run.halts ++ more ∧
    ∀ r ∈ more, r.operation = operation ∧ r.target = target

namespace Run.Adds

variable {operation : String} {target : Option String} {run run' run'' : Run}

theorem of_eq (hsteps : run'.steps = run.steps) (hhalts : run'.halts = run.halts) :
    run.Adds operation target run' :=
  ⟨⟨[], by simp [hsteps]⟩, ⟨[], by simp [hhalts]⟩⟩

theorem trans (h : run.Adds operation target run') (h' : run'.Adds operation target run'') :
    run.Adds operation target run'' := by
  obtain ⟨⟨steps, hsteps, htold⟩, ⟨halts, hhalts, hheard⟩⟩ := h
  obtain ⟨⟨steps', hsteps', htold'⟩, ⟨halts', hhalts', hheard'⟩⟩ := h'
  refine ⟨⟨steps ++ steps', ?_, fun r hr => ?_⟩, ⟨halts ++ halts', ?_, fun r hr => ?_⟩⟩
  · rw [hsteps', hsteps, List.append_assoc]
  · exact (List.mem_append.1 hr).elim (htold r) (htold' r)
  · rw [hhalts', hhalts, List.append_assoc]
  · exact (List.mem_append.1 hr).elim (hheard r) (hheard' r)

end Run.Adds

namespace Visit

variable {v : Visit} {run : Run}

theorem adds (v : Visit) (target : Option String) :
    v.Relates target (fun _ => True) (Run.Adds v.op.id target) where
  refl _ := .of_eq rfl rfl
  trans := Run.Adds.trans
  leaves _ _ := trivial
  begins _ := .of_eq rfl rfl
  accepts _ _ := .of_eq rfl rfl
  charges run := .of_eq (v.charge_keeps run).2.2.1 (v.charge_keeps run).2.2.2
  toggles _ := .of_eq rfl rfl
  starts _ := .of_eq rfl rfl
  forks _ _ := .of_eq rfl rfl
  skips _ _ := ⟨⟨[_], rfl, by simp⟩, ⟨[], by simp [skip, Run.emit]⟩⟩
  halts _ _ _ := ⟨⟨[], by simp [halt, Run.emit]⟩, ⟨[_], rfl, by simp⟩⟩
  completes _ _ _ := ⟨⟨[_], rfl, by simp⟩, ⟨[], by simp [complete, Run.emit]⟩⟩

-- The stage on which a visit carries its operation out, if it does.
def stage? (v : Visit) (target : Option String) (selected : Bool) (run : Run) : Option Stage :=
  if !v.op.immediate && !selected then none
  else
    match v.obstacle? with
    | some _ => none
    | none =>
      match v.charge run with
      | (.error _, _) => none
      | (.ok (), run) => some (v.announceStart target run).toStage

-- What comes of a visit: the operation is carried out, with the records as the visit found them and
-- nothing reported yet, or it is not, and then the records stay.
theorem visit_cases (v : Visit) (target : Option String) (selected : Bool) (run : Run) :
    (v.stage? target selected run = none ∧ (v.visit target selected run).2.records = run.records) ∨
    ∃ started : Run, v.stage? target selected run = some started.toStage ∧
      started.records = run.records ∧ started.steps = run.steps ∧
      v.visit target selected run =
        v.settle target (started.act v.begin).1 (started.act v.begin).2 := by
  by_cases hdeferred : !v.op.immediate && !selected
  · simp only [stage?, visit, if_pos hdeferred]
    exact .inl ⟨trivial, trivial⟩
  · simp only [stage?, visit, if_neg hdeferred]
    cases v.obstacle? with
    | some reason => exact .inl ⟨rfl, rfl⟩
    | none =>
      obtain ⟨hrecords, -, hsteps, -⟩ := v.charge_keeps run
      rcases hcharge : v.charge run with ⟨result, run'⟩
      rw [hcharge] at hrecords hsteps
      cases result with
      | error failure => exact .inl ⟨rfl, hrecords⟩
      | ok => exact .inr ⟨v.announceStart target run', rfl, hrecords, hsteps, rfl⟩

theorem records_stage? {target : Option String} {selected : Bool} {stage : Stage}
    (h : v.stage? target selected run = some stage) : stage.records = run.records := by
  obtain ⟨hnone, -⟩ | ⟨started, hsome, hrecords, -⟩ := v.visit_cases target selected run
  · rw [hnone] at h
    cases h
  · rw [hsome] at h
    cases h
    exact hrecords

end Visit

-- An operation to which a walk or an answer comes, with the cursor, the runs before and after, and
-- the stage on which the operation is carried out, if it is.
structure Stop where
  op : Operation
  cursor : Cursor
  before : Run
  stage? : Option Stage
  after : Run

namespace Stop

def ofVisit (v : Visit) (c : Cursor) (run : Run) : Stop :=
  ⟨v.op, c, run, v.stage? c.targetId c.selected run, (v.visit c.targetId c.selected run).2⟩

-- A question that is dismissed is not carried out.
def ofAnswer (v : Visit) (c : Cursor) (answer : Answer) (run : Run) : Stop :=
  ⟨v.op, c, run, if answer = .dismiss then none else some (v.announceStart c.targetId run).toStage,
    (Session.answered v c answer run).2⟩

-- What is reported of the stop.
def steps (stop : Stop) : List StepRecord := stop.after.steps.drop stop.before.steps.length

def halts (stop : Stop) : List HaltRecord := stop.after.halts.drop stop.before.halts.length

-- Whether all that the stop reports is about its operation and the target of its cursor.
structure Faithful (stop : Stop) : Prop where
  steps_eq : stop.after.steps = stop.before.steps ++ stop.steps
  halts_eq : stop.after.halts = stop.before.halts ++ stop.halts
  steps : ∀ r ∈ stop.steps, r.operation = stop.op.id ∧ r.target = stop.cursor.targetId
  halts : ∀ r ∈ stop.halts, r.operation = stop.op.id ∧ r.target = stop.cursor.targetId

theorem faithful_of_adds {stop : Stop}
    (h : stop.before.Adds stop.op.id stop.cursor.targetId stop.after) : stop.Faithful := by
  obtain ⟨⟨steps, hsteps, htold⟩, ⟨halts, hhalts, hheard⟩⟩ := h
  obtain rfl : stop.steps = steps := by rw [Stop.steps, hsteps, List.drop_left]
  obtain rfl : stop.halts = halts := by rw [Stop.halts, hhalts, List.drop_left]
  exact ⟨hsteps, hhalts, htold, hheard⟩

theorem faithful_ofVisit (v : Visit) (c : Cursor) (run : Run) : (ofVisit v c run).Faithful :=
  faithful_of_adds ((v.adds c.targetId).visit c.selected run)

theorem faithful_ofAnswer (v : Visit) (c : Cursor) (answer : Answer) (run : Run) :
    (ofAnswer v c answer run).Faithful :=
  faithful_of_adds ((v.adds c.targetId).answered answer run)

end Stop

namespace Run

-- The operation at which a place is, if it is at none of the ends of branches.
def stop? (setting : Setting) (plan : Plan) (place : Place) : Option Stop :=
  (plan.order[place.cursor.position]?).map fun op =>
    .ofVisit ⟨setting, plan, op⟩ place.cursor place.run

-- The stops of a walk, one after another.
def stops (setting : Setting) (plan : Plan) (c : Cursor) (run : Run) : List Stop :=
  (run.places setting plan c).filterMap (stop? setting plan)

variable {setting : Setting} {plan : Plan} {c : Cursor} {run : Run}

-- What is so of all visits of the operations of the plan is so of all stops.
theorem forall_stops {P : Stop → Prop}
    (hvisit : ∀ op ∈ plan.operations, ∀ c run, P (.ofVisit ⟨setting, plan, op⟩ c run)) :
    ∀ stop ∈ run.stops setting plan c, P stop := by
  intro stop hstop
  obtain ⟨place, -, hplace⟩ := List.mem_filterMap.1 hstop
  obtain ⟨op, hop, rfl⟩ := Option.map_eq_some_iff.1 hplace
  exact hvisit op (List.mem_mergeSort.1 (List.mem_of_getElem? hop)) _ _

-- A turn reports what its stop does. At the end of a branch nothing is reported.
theorem reports_next (setting : Setting) (plan : Plan) (c : Cursor) (run : Run) :
    (run.next setting plan c).2.steps =
      run.steps ++ (stop? setting plan ⟨c, run⟩).toList.flatMap Stop.steps ∧
    (run.next setting plan c).2.halts =
      run.halts ++ (stop? setting plan ⟨c, run⟩).toList.flatMap Stop.halts := by
  cases hop : plan.order[c.position]? with
  | some op =>
    have hfaithful := Stop.faithful_ofVisit ⟨setting, plan, op⟩ c run
    rw [next_of_order hop]
    have hstop : stop? setting plan ⟨c, run⟩ = some (.ofVisit ⟨setting, plan, op⟩ c run) := by
      simp [stop?, hop]
    rw [hstop, Option.toList_some, List.flatMap_singleton, List.flatMap_singleton]
    exact ⟨hfaithful.steps_eq, hfaithful.halts_eq⟩
  | none =>
    rw [next_of_end hop, branch]
    split
    · simp [stop?, hop, bind]
    · split <;> simp [stop?, hop, bind]

theorem stops_of_goes {c' : Cursor} {run' : Run}
    (h : run.next setting plan c = (.goes c', run')) :
    run.stops setting plan c =
      (stop? setting plan ⟨c, run⟩).toList ++ run'.stops setting plan c' := by
  rw [stops, stops, places_of_goes h, List.filterMap_cons]
  cases stop? setting plan ⟨c, run⟩ <;> rfl

theorem stops_of_ends {run' : Run} (h : run.next setting plan c = (.ends, run')) :
    run.stops setting plan c = (stop? setting plan ⟨c, run⟩).toList := by
  rw [stops, places_of_ends h, List.filterMap_cons]
  cases stop? setting plan ⟨c, run⟩ <;> rfl

theorem stops_of_waits {c' : Cursor} {operation : String} {prompt : Prompt} {run' : Run}
    (h : run.next setting plan c = (.waits c' operation prompt, run')) :
    run.stops setting plan c = (stop? setting plan ⟨c, run⟩).toList := by
  rw [stops, places_of_waits h, List.filterMap_cons]
  cases stop? setting plan ⟨c, run⟩ <;> rfl

-- A walk reports what its stops do, in order.
theorem reports_walk (setting : Setting) (plan : Plan) (c : Cursor) (run : Run) :
    (run.walk setting plan c).2.steps =
      run.steps ++ (run.stops setting plan c).flatMap Stop.steps ∧
    (run.walk setting plan c).2.halts =
      run.halts ++ (run.stops setting plan c).flatMap Stop.halts := by
  induction c, run using walk_induction setting plan with
  | goes c run c' run' hturn ih =>
    have hnext := reports_next setting plan c run
    rw [hturn] at hnext
    rw [ih.1, ih.2, hnext.1, hnext.2, stops_of_goes hturn, List.flatMap_append,
      List.flatMap_append, List.append_assoc, List.append_assoc]
    exact ⟨rfl, rfl⟩
  | ends c run run' hturn =>
    have hnext := reports_next setting plan c run
    rw [hturn] at hnext
    rwa [stops_of_ends hturn]
  | waits c run c' operation prompt run' hturn =>
    have hnext := reports_next setting plan c run
    rw [hturn] at hnext
    rwa [stops_of_waits hturn]

end Run

end Tabletop
