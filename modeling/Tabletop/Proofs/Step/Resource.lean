import Tabletop.Proofs.Step.Keeping

-- What becomes of a resource from which nothing is taken.
namespace Tabletop

theorem Binary64.not_zero_lt_zero : ¬ (0 : Binary64) < 0 := by
  decide +kernel

theorem Ledger.consume_zero {ledger : Ledger} {id : String} {r : Resource}
    (hr : Dict.find? ledger id = some r) (hnegative : r.negativeAllowed = true) :
    ledger.consume id 0 =
      .ok (r.value - 0, Dict.insert ledger id { r with value := r.value - 0 }) := by
  simp [consume, hr, hnegative, Binary64.not_zero_lt_zero]

namespace Visit

variable {v : Visit} {s : Stage} {actor : Entity}

theorem run_actor (h : s.world.read v.setting.keeper v.setting.actor = .ok actor) :
    v.actor.run s = (.ok actor, s) := by
  unfold Visit.actor
  rw [Act.run_get_bind, h]
  rfl

theorem run_evaluate_blank (data : RollData) :
    (v.evaluate "" data).run s = (.ok Evaluation.zero, s) := rfl

-- A blank amount counts as zero, and leaves the value on record all the same.
theorem run_consumeResource_blank {resource : String} {r : Resource}
    (hactor : s.world.read v.setting.keeper v.setting.actor = .ok actor)
    (hr : Dict.find? s.ledger resource = some r) (hnegative : r.negativeAllowed = true) :
    ∃ outcome s', (v.consumeResource resource "").run s = (.ok outcome, s') ∧
      outcome.result = .success ∧ (Dict.find? s'.records resource).isSome := by
  unfold Visit.consumeResource
  rw [Act.run_get_bind, hr]
  dsimp only
  rw [Act.run_bind, run_actor hactor]
  dsimp only
  rw [Act.run_get_bind, Act.run_bind, run_evaluate_blank]
  dsimp only
  rw [Act.run_get_bind, Evaluation.zero, Ledger.consume_zero hr hnegative]
  refine ⟨_, _, rfl, rfl, ?_⟩
  simp [Records.setValue]

end Visit

end Tabletop
