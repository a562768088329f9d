import Tabletop.Proofs.Entity
import Tabletop.Proofs.Step.Effects
import Tabletop.Proofs.World

-- An update makes all its changes or none. The only change that can be refused gives a quantity to
-- an item that the entity does not own, and what an entity owns is the same after every change.
namespace Tabletop

namespace Entity

-- Whether an entity owns the item that a change gives a quantity, if it gives one.
def owns (e : Entity) : Change → Bool
  | .itemQuantity item _ => e.items.any fun i => i.id == item
  | _ => true

-- What a change makes of an entity. Of several items with one id the first is meant.
def altered (e : Entity) : Change → Entity
  | .set path value => { e with system := e.system.set path value }
  | .setFlag key value => { e with flags := Dict.insert e.flags key value }
  | .itemQuantity item quantity =>
    { e with
      items := e.items.modify (e.items.findIdx fun i => i.id == item) fun i => { i with quantity } }
  | .toggleStatus status => { e with statuses := e.statuses.flip status }

def lacks (e : Entity) (item : String) : Failure :=
  .other ("'" ++ e.id ++ "' does not own item '" ++ item ++ "'")

variable {e : Entity} {change : Change} {changes : List Change} {item : String} {quantity : Nat}

theorem owns_itemQuantity : e.owns (.itemQuantity item quantity) = true ↔
    ∃ i ∈ e.items, i.id = item := by
  simp [owns]

theorem setQuantity_eq_modify (item : String) (quantity : Nat) (items : List Item) :
    setQuantity item quantity items =
      if items.any fun i => i.id == item then
        some (items.modify (items.findIdx fun i => i.id == item) fun i => { i with quantity })
      else none := by
  induction items with
  | nil => rfl
  | cons first items ih =>
    rw [setQuantity, List.any_cons, List.findIdx_cons]
    by_cases hfirst : first.id = item
    · simp [hfirst]
    · simp only [if_neg hfirst, ih, beq_false_of_ne hfirst, Bool.false_or, cond_false,
        List.modify_succ_cons]
      split <;> rfl

theorem apply_of_owns (h : e.owns change = true) : e.apply change = .ok (e.altered change) := by
  cases change with
  | itemQuantity item quantity =>
    rw [owns] at h
    rw [apply, setQuantity_eq_modify, if_pos h]
    rfl
  | set | setFlag | toggleStatus => rfl

theorem apply_of_not_owns (h : e.owns change = false) : ∃ item quantity,
    change = .itemQuantity item quantity ∧ e.apply change = .error (e.lacks item) := by
  cases change with
  | itemQuantity item quantity =>
    refine ⟨item, quantity, rfl, ?_⟩
    rw [owns] at h
    rw [apply, setQuantity_eq_modify, h]
    rfl
  | set | setFlag | toggleStatus => cases h

theorem id_altered (e : Entity) (change : Change) : (e.altered change).id = e.id := by
  cases change <;> rfl

-- A quantity is all that changes about an item.
theorem ids_altered (e : Entity) (change : Change) :
    (e.altered change).items.map Item.id = e.items.map Item.id := by
  cases change with
  | itemQuantity item quantity =>
    refine List.ext_getElem? fun n => ?_
    simp only [altered, List.getElem?_map, List.getElem?_modify]
    cases e.items[n]? <;> split <;> rfl
  | set | setFlag | toggleStatus => rfl

theorem owns_altered (e : Entity) (change other : Change) :
    (e.altered change).owns other = e.owns other := by
  cases other with
  | itemQuantity item quantity =>
    have hids : ∀ items : List Item,
        (items.any fun i => i.id == item) = (items.map Item.id).any (· == item) := by
      intro items
      rw [List.any_map]
      rfl
    rw [owns, owns, hids, hids, ids_altered]
  | set | setFlag | toggleStatus => rfl

-- All changes are made one after another, or one of them asks for an item that is not there.
theorem applyAll_cases (e : Entity) (changes : List Change) :
    ((∀ change ∈ changes, e.owns change = true) ∧
      e.applyAll changes = .ok (changes.foldl altered e)) ∨
    ∃ item quantity, .itemQuantity item quantity ∈ changes ∧
      e.owns (.itemQuantity item quantity) = false ∧
      e.applyAll changes = .error (e.lacks item) := by
  induction changes generalizing e with
  | nil => exact .inl ⟨fun _ h => absurd h List.not_mem_nil, rfl⟩
  | cons change changes ih =>
    rw [applyAll, List.foldlM_cons]
    cases howns : e.owns change with
    | false =>
      obtain ⟨item, quantity, rfl, hrefused⟩ := apply_of_not_owns howns
      rw [hrefused]
      exact .inr ⟨item, quantity, List.mem_cons_self, howns, rfl⟩
    | true =>
      rw [apply_of_owns howns]
      -- What the rest asks for was there before if it is there now.
      obtain ⟨hrest, hmade⟩ | ⟨item, quantity, hmem, hlacks, hrefused⟩ := ih (e.altered change)
      · simp only [owns_altered] at hrest
        exact .inl ⟨List.forall_mem_cons.2 ⟨howns, hrest⟩, hmade⟩
      · rw [owns_altered] at hlacks
        rw [lacks, id_altered] at hrefused
        exact .inr ⟨item, quantity, List.mem_cons_of_mem _ hmem, hlacks, hrefused⟩

end Entity

namespace World

-- Whether an update cannot be made: there is no such entity, or it does not own an item that is to
-- have another quantity.
def Refuses (w : World) (id : String) (changes : List Change) : Prop :=
  Dict.find? w id = none ∨
    ∃ e item quantity, Dict.find? w id = some e ∧ .itemQuantity item quantity ∈ changes ∧
      ∀ i ∈ e.items, i.id ≠ item

theorem update_refused {w : World} {id : String} {changes : List Change} (derive : Entity → Entity)
    (h : w.Refuses id changes) : ∃ failure, w.update { derive } id changes = .error failure := by
  simp only [update]
  obtain hmissing | ⟨e, item, quantity, hfound, hmem, hlacks⟩ := h
  · rw [hmissing]
    exact ⟨_, rfl⟩
  · rw [hfound]
    obtain ⟨howns, -⟩ | ⟨item', _, _, _, hrefused⟩ := e.applyAll_cases changes
    · obtain ⟨i, hi, hid⟩ := Entity.owns_itemQuantity.1 (howns _ hmem)
      exact absurd hid (hlacks i hi)
    · exact ⟨e.lacks item', by simp only [hrefused]⟩

theorem update_made {w : World} {id : String} {changes : List Change} (derive : Entity → Entity)
    (h : ¬ w.Refuses id changes) :
    ∃ e, Dict.find? w id = some e ∧
      w.update { derive } id changes =
        .ok (Dict.insert w id (derive (changes.foldl Entity.altered e))) := by
  simp only [update]
  cases hfound : Dict.find? w id with
  | none => exact absurd (.inl hfound) h
  | some e =>
    obtain ⟨-, hmade⟩ | ⟨item, quantity, hmem, hlacks, -⟩ := e.applyAll_cases changes
    · exact ⟨e, rfl, by simp only [hmade]⟩
    · refine absurd (.inr ⟨e, item, quantity, hfound, hmem, fun i hi hid => ?_⟩) h
      simp [Entity.owns_itemQuantity.2 ⟨i, hi, hid⟩] at hlacks

end World

namespace Act

theorem run_update (keeper : Keeper) (id : String) (changes : List Change) (s : Stage) :
    (update keeper id changes).run s =
      match s.world.update keeper id changes with
      | .ok world => (.ok (), { s with world })
      | .error failure => (.error failure, s) := by
  rw [update, run_get_bind]
  cases s.world.update keeper id changes <;> rfl

variable {id : String} {changes : List Change} {s : Stage}

theorem run_update_of_refuses (derive : Entity → Entity) (h : s.world.Refuses id changes) :
    ∃ failure, (update { derive } id changes).run s = (.error failure, s) := by
  obtain ⟨failure, hupdate⟩ := World.update_refused derive h
  exact ⟨failure, by rw [run_update, hupdate]⟩

-- What is recomputed after an update is recomputed once, when all changes are made.
theorem run_update_of_not_refuses (derive : Entity → Entity) (h : ¬ s.world.Refuses id changes) :
    ∃ e world, Dict.find? s.world id = some e ∧
      (update { derive } id changes).run s = (.ok (), { s with world }) ∧
      Dict.find? world id = some (derive (changes.foldl Entity.altered e)) ∧
      ∀ other, other ≠ id → Dict.find? world other = Dict.find? s.world other := by
  obtain ⟨e, hfound, hupdate⟩ := World.update_made derive h
  refine ⟨e, _, hfound, by rw [run_update, hupdate], by simp, fun other hother => ?_⟩
  simp [hother]

theorem update_all_or_nothing (derive : Entity → Entity) (id : String) (changes : List Change)
    (s : Stage) :
    ((∃ failure s', (update { derive } id changes).run s = (.error failure, s')) ↔
      s.world.Refuses id changes) ∧
    (∀ failure s', (update { derive } id changes).run s = (.error failure, s') → s' = s) ∧
    (¬ s.world.Refuses id changes → ∃ e world, Dict.find? s.world id = some e ∧
      (update { derive } id changes).run s = (.ok (), { s with world }) ∧
      Dict.find? world id = some (derive (changes.foldl Entity.altered e)) ∧
      ∀ other, other ≠ id → Dict.find? world other = Dict.find? s.world other) := by
  by_cases h : s.world.Refuses id changes
  · obtain ⟨failure, hrun⟩ := run_update_of_refuses derive h
    refine ⟨⟨fun _ => h, fun _ => ⟨failure, s, hrun⟩⟩, fun failure' s' hrun' => ?_, fun hnot => ?_⟩
    · exact (Prod.mk.inj (hrun.symm.trans hrun')).2.symm
    · exact absurd h hnot
  · obtain ⟨e, world, hfound, hrun, hworld⟩ := run_update_of_not_refuses derive h
    have hnever : ∀ failure s', (update { derive } id changes).run s ≠ (.error failure, s') := by
      intro failure s' hrun'
      cases hrun.symm.trans hrun'
    refine ⟨⟨fun ⟨failure, s', hrun'⟩ => absurd hrun' (hnever failure s'), fun hrefuses => ?_⟩,
      fun failure s' hrun' => absurd hrun' (hnever failure s'),
      fun _ => ⟨e, world, hfound, hrun, hworld⟩⟩
    exact absurd hrefuses h

def wanderer : Entity where
  id := "hero"
  name := "Hero"
  system := .obj [("hp", .obj [("value", .int 10)])]
  items := [⟨"potion", "Potion", some "belt", 2, true⟩]

def camp : Stage where
  records := {}
  ledger := {}
  world := World.ofList [wanderer, { id := "ally", name := "Ally" }]
  dice := .highest
  events := []

-- Six points and fewer show.
def bloody (e : Entity) : Entity :=
  { e with system := e.system.set "bloodied" (.bool ((e.number? "hp.value").getD 0 ≤ 6)) }

-- A sword that is not there spoils what stands before it in the list, and without the sword all of
-- it is done.
theorem update_all_or_nothing_wanderer :
    let blow : List Change :=
      [.set "hp.value" (.int 4), .setFlag "mood" (.str "grim"), .itemQuantity "potion" 1]
    (∃ failure, (update { derive := bloody } "hero" (blow ++ [.itemQuantity "sword" 0])).run camp =
      (.error failure, camp)) ∧
    ∃ world, (update { derive := bloody } "hero" blow).run camp = (.ok (), { camp with world }) ∧
      Dict.find? world "hero" = some (bloody (blow.foldl Entity.altered wanderer)) ∧
      (blow.foldl Entity.altered wanderer).items.map Item.quantity = [1] ∧
      Dict.find? world "ally" = Dict.find? camp.world "ally" := by
  intro blow
  have hhero : Dict.find? camp.world "hero" = some wanderer := by cbv
  have hrefuses : camp.world.Refuses "hero" (blow ++ [.itemQuantity "sword" 0]) := by
    refine .inr ⟨wanderer, "sword", 0, hhero, by simp, ?_⟩
    simp [wanderer]
  have hmakes : ¬ camp.world.Refuses "hero" blow := by
    rintro (hnone | ⟨e, item, quantity, hfound, hmem, hlacks⟩)
    · cases hhero.symm.trans hnone
    · obtain rfl := Option.some.inj (hhero.symm.trans hfound)
      obtain ⟨rfl, rfl⟩ : item = "potion" ∧ quantity = 1 := by simpa [blow] using hmem
      simp [wanderer] at hlacks
  refine ⟨?_, ?_⟩
  · obtain ⟨hiff, hkept, -⟩ :=
      update_all_or_nothing bloody "hero" (blow ++ [.itemQuantity "sword" 0]) camp
    obtain ⟨failure, s', hrun⟩ := hiff.2 hrefuses
    obtain rfl := hkept failure s' hrun
    exact ⟨failure, hrun⟩
  · obtain ⟨-, -, hmade⟩ := update_all_or_nothing bloody "hero" blow camp
    obtain ⟨e, world, hfound, hrun, hworld, hothers⟩ := hmade hmakes
    obtain rfl := Option.some.inj (hhero.symm.trans hfound)
    exact ⟨world, hrun, hworld, rfl, hothers "ally" (by decide)⟩

end Act

end Tabletop
