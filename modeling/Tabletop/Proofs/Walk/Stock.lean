import Tabletop.Proofs.Ledger
import Tabletop.Proofs.Walk.Relating

-- Pools stay finite as long as every change that is told of is.
namespace Tabletop

-- Whether an event tells of a pool that it has something finite left.
def Event.Sound : Event → Prop
  | .resourceChanged _ _ value => value.isFinite = true
  | _ => True

theorem Event.sound_of_not_changesPool {e : Event} (h : ¬ e.ChangesPool) : e.Sound := by
  cases e <;> first | trivial | exact absurd trivial h

namespace Effect

-- Events are added, and the pools are finite afterwards exactly when they were before and every
-- change that is told of leaves something finite.
def stocking : Effect where
  Allows s t := ∃ more, t.events = s.events ++ more ∧
    (t.ledger.Finite ↔ s.ledger.Finite ∧ ∀ e ∈ more, e.Sound)
  refl s := ⟨[], by simp⟩
  trans := by
    rintro s t u ⟨more, ht, hmore⟩ ⟨others, hu, hothers⟩
    refine ⟨more ++ others, by rw [hu, ht, List.append_assoc], ?_⟩
    rw [hothers, hmore, List.forall_mem_append, and_assoc]

theorem stocking_tell {s : Stage} {e : Event} (h : e.Sound) : stocking.Allows s (s.tell e) :=
  ⟨[e], rfl, by simp [Stage.tell, h]⟩

theorem stocking_of_eq {s t : Stage} (hevents : t.events = s.events) (hledger : t.ledger = s.ledger) :
    stocking.Allows s t :=
  ⟨[], by simp [hevents], by simp [hledger]⟩

end Effect

open Effect in
theorem Visit.within_stocking (v : Visit) : v.Within (fun _ => True) .stocking where
  tells _ _ _ hpool := stocking_tell (Event.sound_of_not_changesPool hpool)
  rolls _ _ := stocking_of_eq rfl rfl
  updates _ _ _ _ _ _ := stocking_of_eq rfl rfl
  toggles _ _ _ _ _ := stocking_of_eq rfl rfl
  uses _ _ _ _ _ _ := stocking_of_eq rfl rfl
  creates _ _ _ _ hfull hnew :=
    ⟨[_], rfl, by simpa [Event.Sound, Stage.tell] using Ledger.finite_create hnew hfull⟩
  consumes _ _ _ _ _ _ _ _ hconsume :=
    ⟨[_], rfl, by simpa [Event.Sound, Stage.tell] using Ledger.finite_consume hconsume⟩
  leaves _ _ := trivial
  marks _ _ hpool := stocking_tell (Event.sound_of_not_changesPool hpool)
  records _ _ _ := stocking_of_eq rfl rfl

end Tabletop
