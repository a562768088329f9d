import Tabletop.Proofs.Dict
import Tabletop.World

-- What reading and updating tell of a world, and that entities stay where they are kept.
namespace Tabletop.World

variable {w w' : World} {keeper : Keeper} {id : String} {e : Entity} {changes : List Change}

theorem of_read (h : w.read keeper id = .ok e) : Dict.find? w id = some e := by
  unfold read at h
  split at h
  · cases h
  · split at h
    · next hfound =>
      cases h
      exact hfound
    · cases h

theorem of_update (h : w.update keeper id changes = .ok w') :
    ∃ e next, Dict.find? w id = some e ∧ e.applyAll changes = .ok next ∧
      w' = Dict.insert w id (keeper.derive next) := by
  unfold update at h
  split at h
  · cases h
  · split at h
    · cases h
    · next e hfound =>
      split at h
      · cases h
      · next next hnext =>
        cases h
        exact ⟨e, next, hfound, hnext, rfl⟩

theorem find?_update (h : w.update keeper id changes = .ok w') {other : String}
    (hother : other ≠ id) : Dict.find? w' other = Dict.find? w other := by
  obtain ⟨e, next, -, -, rfl⟩ := of_update h
  simp [hother]

-- Whether every entity is kept under its own id.
def Keyed (w : World) : Prop := ∀ id e, Dict.find? w id = some e → e.id = id

theorem Keyed.insert (h : w.Keyed) (hid : e.id = id) : Keyed (Dict.insert w id e) := by
  intro other found hfound
  rw [Dict.find?_insert] at hfound
  split at hfound
  · next hother =>
    cases hfound
    exact hid.trans hother.symm
  · exact h other found hfound

theorem keyed_ofList (entities : List Entity) : (ofList entities).Keyed := by
  have hadded : ∀ (pairs : List (String × Entity)) (w : World), (∀ p ∈ pairs, p.2.id = p.1) →
      w.Keyed → Keyed (pairs.foldl (fun w (id, e) => Dict.insert w id e) w) := by
    intro pairs
    induction pairs with
    | nil => exact fun _ _ hw => hw
    | cons p pairs ih =>
      intro w hpairs hw
      rw [List.forall_mem_cons] at hpairs
      exact ih _ hpairs.2 (hw.insert hpairs.1)
  refine hadded _ _ (by simp) fun id e hfound => ?_
  cases hfound

end Tabletop.World
