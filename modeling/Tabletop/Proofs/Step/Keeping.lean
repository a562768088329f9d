import Tabletop.Proofs.Dict
import Tabletop.Proofs.Step.Effects

-- What survives all that a visit can change.
namespace Tabletop

-- Whether a property of the stage does. A visit adds events, and writes the record of its own
-- operation once the operation was carried out.
structure Visit.Preserves (v : Visit) (P : Stage → Prop) : Prop extends
    v.Changes (.keeping P), v.Toggles (.keeping P) where
  events : ∀ s events, P s → P { s with events }
  own : ∀ s value, P s → P { s with records := Dict.insert s.records v.op.id value }

-- Whether a property of the records survives all that an operation can write: its own record, and
-- that of a resource that it consumes.
structure Operation.Allows (P : Records → Prop) (op : Operation) : Prop where
  own : ∀ r value, P r → P (Dict.insert r op.id value)
  consumed : ∀ resource amount, op.kind = .consumeResource resource amount →
    ∀ r value, P r → P (Records.setValue r resource value)

-- No operation drops a record.
theorem Operation.allows_recorded (op : Operation) (key : String) :
    op.Allows fun r => (Dict.find? r key).isSome where
  own r value h := by
    rw [Dict.find?_insert]
    split <;> simp_all
  consumed _ _ _ r value h := by
    rw [Records.setValue, Dict.find?_insert]
    split <;> simp_all

theorem Operation.Allows.preserves {P : Records → Prop} {v : Visit} (hP : v.op.Allows P) :
    v.Preserves fun s => P s.records where
  tells _ _ _ _ h := h
  rolls _ _ h := h
  updates _ _ _ _ _ _ h := h
  toggles _ _ _ _ _ h := h
  uses _ _ _ _ _ _ h := h
  creates _ _ _ _ _ _ h := h
  consumes s resource amount _ _ _ _ hkind _ := hP.consumed resource amount hkind s.records _
  events _ _ h := h
  own s value := hP.own s.records value

end Tabletop
