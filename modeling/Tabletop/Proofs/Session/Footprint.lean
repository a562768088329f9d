import Tabletop.Proofs.Session.Starts
import Tabletop.Proofs.Walk.Footprint

-- What a call may write in the activity, told by the operations that it starts.
namespace Tabletop

namespace Stop

theorem traces_footprint (setting : Setting) (plan : Plan) :
    Traces setting plan fun stops s t => s.Footprint (stops.filterMap started?) t where
  refl _ := .of_eq rfl rfl
  trans h h' := by
    rw [List.filterMap_append]
    exact h.append h'
  visits op _ c run := footprint_ofVisit ⟨setting, plan, op⟩ c run
  answers op _ c answer run := footprint_ofAnswer ⟨setting, plan, op⟩ c answer run
  -- The one record that is not written by an operation is that of the bound target.
  binds s target :=
    { records key hchanged := by
        by_cases hkey : key = Records.targetKey
        · exact .inl hkey
        · exact absurd (Records.find?_bind.trans (if_neg hkey)) hchanged
      made id r hnone hsome := by
        rw [hnone] at hsome
        cases hsome
      kept id r hfound := ⟨r.value, hfound, fun hchanged => absurd rfl hchanged⟩ }
  frames _ _ _ := .of_eq rfl rfl

theorem map_started? (stop : Stop) :
    stop.started?.map Operation.id = stop.start?.map Start.operation := by
  cases h : stop.stage? <;> simp [started?, start?, h]

end Stop

namespace Session

-- The operations that a call carries out, one after another.
def started (setting : Setting) (s : Session) (c : Call) : List Operation :=
  (s.stops setting c).filterMap Stop.started?

theorem mem_started {setting : Setting} {s : Session} {c : Call} {op : Operation}
    (h : op ∈ s.started setting c) : op ∈ s.activity.operations := by
  obtain ⟨stop, hstop, hstarted⟩ := List.mem_filterMap.1 h
  obtain ⟨stage, -, rfl⟩ := Option.map_eq_some_iff.1 hstarted
  exact forall_stops (P := fun stop => stop.op ∈ s.activity.operations) (fun _ hop _ _ => hop)
    (fun _ hop _ _ _ => hop) c stop hstop

-- A host hears of all of them, and of no other ones.
theorem hears_started (setting : Setting) (s : Session) (c : Call) :
    ∃ told, (s.call setting c).2.events = s.events ++ told ∧
      (told.filterMap Event.start?).map Start.operation = (s.started setting c).map Operation.id := by
  obtain ⟨told, hevents, hstarts⟩ := traces_call (Stop.traces_hears setting s.activity.toPlan) c
  refine ⟨told, hevents, ?_⟩
  rw [hstarts, started, List.map_filterMap, List.map_filterMap]
  exact congrArg (List.filterMap · _) (funext fun stop => stop.map_started?.symm)

-- Whether a call reports or fails, it leaves what is authored of the activity as it is, and writes
-- only the record of the bound target and those of the operations that it starts and of the pools
-- that these draw on. It makes only the pools of operations that it starts, it drops none, and of
-- those that were there it changes only the values where an operation draws on them.
theorem activity_framed (setting : Setting) (s : Session) (c : Call) :
    (∃ told, (s.call setting c).2.events = s.events ++ told ∧
      (told.filterMap Event.start?).map Start.operation =
        (s.started setting c).map Operation.id) ∧
    (∀ op ∈ s.started setting c, op ∈ s.activity.operations) ∧
    (s.call setting c).2.activity.toPlan = s.activity.toPlan ∧
    (∀ key, (s.call setting c).2.activity.records.find? key ≠ s.activity.records.find? key →
      key = Records.targetKey ∨ ∃ op ∈ s.started setting c,
        key = op.id ∨ ∃ amount, op.kind = .consumeResource key amount) ∧
    (∀ id r, Dict.find? s.activity.ledger id = none →
      Dict.find? (s.call setting c).2.activity.ledger id = some r →
      ∃ op ∈ s.started setting c, op.id = id ∧
        op.kind = .createResource r.name r.maximumFormula r.negativeAllowed r.reset) ∧
    ∀ id r, Dict.find? s.activity.ledger id = some r →
      ∃ value, Dict.find? (s.call setting c).2.activity.ledger id = some { r with value } ∧
        (value ≠ r.value →
          ∃ op ∈ s.started setting c, ∃ amount, op.kind = .consumeResource id amount) := by
  have hfootprint := traces_call (Stop.traces_footprint setting s.activity.toPlan) c
  exact ⟨hears_started setting s c, fun _ => mem_started, toPlan_call s c, hfootprint.records,
    hfootprint.made, hfootprint.kept⟩

end Session

end Tabletop
