import Tabletop.Operation
import Tabletop.Records

namespace Tabletop

-- What is authored of an activity: its operations and data of its own.
structure Plan where
  id : String
  name : String := ""
  system : Json := .obj []
  operations : List Operation := []

-- An activity with all that is kept from one invocation to the next.
structure Activity extends Plan where
  records : Records := {}
  ledger : Ledger := {}
  pending : Option Pending := none
  -- The operations that were paid for in the current invocation.
  charged : Names := Dict.empty

namespace Plan

-- Operations run by ascending priority; equal priorities keep the order of declaration.
def order (p : Plan) : List Operation :=
  p.operations.mergeSort (fun a b => a.priority ≤ b.priority)

-- The operations in the order of execution, each with its place in the order of declaration.
def placed (p : Plan) : List (Operation × Nat) :=
  p.operations.zipIdx.mergeSort (fun a b => a.1.priority ≤ b.1.priority)

theorem map_fst_placed (p : Plan) : p.placed.map Prod.fst = p.order := by
  have hsort := List.map_mergeSort (f := Prod.fst) (l := p.operations.zipIdx)
    (r := fun a b => a.1.priority ≤ b.1.priority) (s := fun a b => a.priority ≤ b.priority)
    fun _ _ _ _ => rfl
  rw [placed, hsort, List.zipIdx_map_fst, order]

def operation? (p : Plan) (id : String) : Option Operation :=
  p.operations.find? fun op => op.id == id

-- The place of an operation in the order of execution.
def position? (p : Plan) (id : String) : Option Nat :=
  p.order.findIdx? fun op => op.id == id

def choicesOf (p : Plan) (keep : Operation → Bool) : List Choice :=
  (p.operations.filter keep).map fun op => ⟨op.id, op.label⟩

end Plan

namespace Activity

-- Fills the resources whose trigger this is; the records show their new values.
def resetResources (a : Activity) (trigger : ResetTrigger) : List String × Activity :=
  let (ids, ledger) := a.ledger.reset trigger
  let records := ids.foldl (fun records id =>
    match Dict.find? ledger id with
    | some r => records.setValue id (Json.ofReal r.value)
    | none => records) a.records
  (ids, { a with ledger, records })

-- Gives up an unanswered prompt, and tells whether there was one.
def clearPending (a : Activity) : Bool × Activity :=
  (a.pending.isSome, { a with pending := none, charged := Dict.empty })

end Activity

namespace OperationKind

def selfChoices (names : List String) : List Choice := names.map fun n => ⟨n, n⟩

-- The entries that an editor offers for the fields of an operation, by field.
def choices (kind : OperationKind) (plan : Plan) : List (String × List Choice) :=
  match kind with
  | .attack .. =>
    let types := plan.operations.flatMap fun op =>
      match op.kind with
      | .attack damages _ => damages.map Damage.damageType
      | _ => []
    [("damageTypes", selfChoices (Names.ofList types).toList)]
  | .condition .. =>
    [("comparisons", selfChoices (Comparison.all.map Comparison.symbol)),
     ("operations", plan.choicesOf fun _ => true),
     ("sources", Source.all.map fun s => ⟨s.name, s.label⟩)]
  | .target _ => [("appliesTo", [⟨"each", "Each target"⟩, ⟨"random", "One random target"⟩])]
  | .use _ =>
    [("policies", [⟨"single", "The single item in the slot"⟩, ⟨"upTo", "Up to N items"⟩,
      ⟨"all", "Every item in the slot"⟩])]
  | .createResource .. => [("resetTriggers", selfChoices (ResetTrigger.all.map ResetTrigger.name))]
  | .consumeResource .. =>
    [("resources", plan.choicesOf fun op =>
      match op.kind with
      | .createResource .. => true
      | _ => false)]
  | .heal .. | .consumption .. =>
    [("recipients", [⟨"self", "Acting entity"⟩, ⟨"target", "Current target"⟩])]
  | .selectOperation .. => [("operations", plan.choicesOf fun op => !op.immediate)]
  | .selectOption options _ =>
    [("continueFrom", plan.choicesOf fun _ => true),
     ("options", options.mapIdx fun i o => ⟨toString i, o.label⟩)]
  | .check .. | .test _ | .setFlag .. | .variable .. | .travel _ | .message _ => []

end OperationKind

end Tabletop
