import Tabletop.Ledger
import Tabletop.Proofs.Dict

-- The numbers of pools, and what becomes of them when pools are made, drawn on and filled.
namespace Tabletop

-- What is taken away leaves something finite only from something finite.
theorem Binary64.isFinite_of_sub {x y : Binary64} (h : (x - y).isFinite = true) :
    x.isFinite = true := by
  cases x with
  | finite => rfl
  | infinite s =>
    have hsub : (Binary64.infinite s - y).isFinite = false := by
      show (add (.infinite s) y.neg).isFinite = false
      cases y with
      | finite | nan => rfl
      | infinite t =>
        simp only [neg, add]
        split <;> rfl
    simp [hsub] at h
  | nan => exact h

def Resource.Finite (r : Resource) : Prop := r.maximum.isFinite = true ∧ r.value.isFinite = true

namespace Ledger

-- Whether all numbers of all pools are finite.
def Finite (ledger : Ledger) : Prop := ∀ id r, Dict.find? ledger id = some r → r.Finite

variable {ledger ledger' : Ledger} {id : String} {r : Resource}

theorem finite_insert (hold : ∀ old, Dict.find? ledger id = some old → r.Finite → old.Finite) :
    Finite (Dict.insert ledger id r) ↔ ledger.Finite ∧ r.Finite := by
  constructor
  · intro h
    have hr : r.Finite := h id r (by simp)
    refine ⟨fun k old hfound => ?_, hr⟩
    by_cases hk : k = id
    · exact hold old (hk ▸ hfound) hr
    · exact h k old (by simp [hk, hfound])
  · intro ⟨h, hr⟩ k new hfound
    rw [Dict.find?_insert] at hfound
    split at hfound
    · cases hfound
      exact hr
    · exact h k new hfound

theorem finite_create (hnew : Dict.find? ledger r.id = none) (hfull : r.maximum = r.value) :
    (ledger.create r).2.Finite ↔ ledger.Finite ∧ r.value.isFinite = true := by
  have hcreate : (ledger.create r).2 = Dict.insert ledger r.id r := by
    simp [create, Dict.contains, hnew]
  rw [hcreate, finite_insert (by simp [hnew]), Resource.Finite, hfull, and_self]

-- What is taken from a pool changes its value and nothing else.
theorem of_consume {x left : Binary64} (h : ledger.consume id x = .ok (left, ledger')) :
    ∃ old, Dict.find? ledger id = some old ∧ left = old.value - x ∧
      ledger' = Dict.insert ledger id { old with value := left } := by
  unfold consume at h
  split at h
  · cases h
  · next old hold =>
    split at h
    · cases h
    · split at h
      · cases h
      · cases h
        exact ⟨old, hold, rfl, rfl⟩

theorem finite_consume {x left : Binary64} (h : ledger.consume id x = .ok (left, ledger')) :
    ledger'.Finite ↔ ledger.Finite ∧ left.isFinite = true := by
  obtain ⟨old, hold, rfl, rfl⟩ := of_consume h
  -- A pool that is finite after it was drawn on was finite before.
  rw [finite_insert fun old' hold' hr => ?_]
  · refine and_congr_right fun hledger => ?_
    exact ⟨And.right, fun hleft => ⟨(hledger id old hold).1, hleft⟩⟩
  · obtain rfl : old = old' := Option.some.inj (hold.symm.trans hold')
    exact ⟨hr.1, Binary64.isFinite_of_sub hr.2⟩

-- A refill makes values of maxima.
theorem Finite.reset (h : ledger.Finite) (trigger : ResetTrigger) :
    (ledger.reset trigger).2.Finite := by
  intro k new hfound
  rw [Ledger.reset, Dict.find?_mapValues] at hfound
  obtain ⟨old, hold, rfl⟩ := Option.map_eq_some_iff.1 hfound
  split
  · exact ⟨(h k old hold).1, (h k old hold).1⟩
  · exact h k old hold

end Ledger

end Tabletop
