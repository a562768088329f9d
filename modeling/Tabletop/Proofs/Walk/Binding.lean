import Tabletop.Proofs.Records
import Tabletop.Proofs.Walk.Keeping
import Tabletop.Proofs.Walk.Places

-- The records tell the bound target of a walk, as long as no operation takes its key.
namespace Tabletop

-- Whether an operation never writes a record under the key of the bound target.
def Operation.Spares (op : Operation) : Prop :=
  op.id ≠ Records.targetKey ∧ ∀ amount, op.kind ≠ .consumeResource Records.targetKey amount

def Plan.Spares (plan : Plan) : Prop := ∀ op ∈ plan.operations, op.Spares

theorem Plan.Spares.of_order {plan : Plan} (h : plan.Spares) {i : Nat} {op : Operation}
    (hop : plan.order[i]? = some op) : op.Spares :=
  h op (List.mem_mergeSort.1 (List.mem_of_getElem? hop))

theorem Validation.id_ne_target_of_idFault? {seen : List String} {id : String}
    (h : idFault? seen id = none) : id ≠ Records.targetKey := by
  rintro rfl
  unfold idFault? at h
  split at h
  · cases h
  · split at h
    · cases h
    · simp at h

theorem Validation.id_ne_target_of_uniqueIdsFrom {ops : List Operation} {seen : List String}
    (h : ∀ d ∈ uniqueIdsFrom seen ops, d.severity ≠ .error) :
    ∀ op ∈ ops, op.id ≠ Records.targetKey := by
  induction ops generalizing seen with
  | nil => simp
  | cons op ops ih =>
    rw [uniqueIdsFrom] at h
    split at h
    · exact absurd rfl (h _ List.mem_cons_self)
    · next hnone =>
      rw [List.forall_mem_cons]
      exact ⟨id_ne_target_of_idFault? hnone, ih h⟩

theorem Activity.severity_ne_error {a : Activity} (h : a.errors = []) :
    ∀ d ∈ a.diagnostics, d.severity ≠ .error := by
  intro d hd herror
  have hmessage : d.message ∈ a.errors := by
    rw [errors, List.mem_filterMap]
    exact ⟨d, hd, by simp [herror]⟩
  simp [h] at hmessage

-- No operation of an activity without errors has the key of the bound target for its id.
theorem Activity.id_ne_target {a : Activity} (h : a.errors = []) :
    ∀ op ∈ a.operations, op.id ≠ Records.targetKey := by
  have hids : ∀ d ∈ Validation.uniqueIds a, d.severity ≠ .error := fun d hd =>
    severity_ne_error h d (by simp [diagnostics, hd])
  exact Validation.id_ne_target_of_uniqueIdsFrom hids

theorem Operation.Spares.allows {op : Operation} (h : op.Spares) (target : Option Snapshot) :
    op.Allows (Records.Bound target) where
  own _ value hr := hr.insert h.1 value
  consumed _ amount hkind _ value hr :=
    hr.setValue (fun heq => h.2 amount (heq ▸ hkind)) value

theorem Plan.Spares.tells {plan : Plan} (h : plan.Spares) (setting : Setting) :
    plan.Tells setting fun target r => r.Bound target where
  bind _ _ := Records.bound_bind
  visits op hop target := ⟨_, ((h op hop).allows target).preserves.within⟩

-- Whether the target of the cursor of a turn is bound.
def Turn.Bound (r : Records) : Turn → Prop
  | .goes c => r.Bound c.target
  | .ends => True
  | .waits c _ _ => r.Bound c.target

theorem Turn.Told.bound {base : Option Snapshot} {r : Records} {turn : Turn}
    (h : turn.Told (fun target r => r.Bound target) base r) : turn.Bound r := by
  cases turn with
  | goes | waits => exact h.1
  | ends => trivial

theorem Recursion.bound_turn {size : Nat} {operation : String} {c : Cursor} {r : Records}
    (h : r.Bound c.target) (way : Way) : (turn size operation c way).Bound r := by
  cases way with
  | move move => exact (Cursor.told_after (B := fun target r => r.Bound target) h move).bound
  | jump position => exact h

-- The turn after an answer has the target of the cursor.
theorem Session.bound_answered {v : Visit} {c : Cursor} {answer : Answer} {run run' : Run}
    {turn : Turn} {r : Records} (hbound : r.Bound c.target)
    (h : answered v c answer run = (.ok turn, run')) : turn.Bound r := by
  rw [Recursion.answered_eq_reply] at h
  generalize Recursion.reply v c.targetId answer run = replied at h
  obtain ⟨result, run''⟩ := replied
  cases result with
  | error failure => cases h
  | ok way =>
    cases h
    exact Recursion.bound_turn hbound way

namespace Run

variable {setting : Setting} {plan : Plan} {c : Cursor} {run : Run}

theorem bound_next (setting : Setting) (hspares : plan.Spares) (h : run.records.Bound c.target) :
    (run.next setting plan c).1.Bound (run.next setting plan c).2.records :=
  ((hspares.tells setting).next h).bound

-- The target of an operation that waits is the bound one.
theorem bound_walk (setting : Setting) (hspares : plan.Spares) (c : Cursor) (run : Run)
    (h : run.records.Bound c.target) :
    ∀ w, (run.walk setting plan c).1 = some w →
      (run.walk setting plan c).2.records.Bound w.cursor.target := by
  obtain ⟨-, hwaits⟩ := (hspares.tells setting).walk h
  exact fun w hw => (hwaits w hw).1

end Run

end Tabletop
