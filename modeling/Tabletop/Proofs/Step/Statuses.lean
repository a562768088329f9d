import Mathlib.Algebra.Ring.Parity
import Tabletop.Proofs.Entity
import Tabletop.Proofs.Step.Effects
import Tabletop.Proofs.World

-- The statuses of the acting entity. They flip where an operation says so, and nothing else that is
-- done to the world touches them.
namespace Tabletop

-- Whether a name is there after it was flipped so many times.
def flipped (present : Bool) (times : Nat) : Bool := present ^^ decide (Odd times)

@[simp] theorem flipped_zero (present : Bool) : flipped present 0 = present := by simp [flipped]

theorem flipped_add (present : Bool) (times more : Nat) :
    flipped present (times + more) = flipped (flipped present times) more := by
  by_cases htimes : Odd times <;> by_cases hmore : Odd more <;>
    simp [flipped, Nat.odd_add, htimes, hmore, ← Nat.not_odd_iff_even]

namespace Names

theorem contains_flip (s : Names) (name other : String) :
    Dict.contains (s.flip name) other = flipped (Dict.contains s other) ([name].count other) := by
  by_cases hname : name = other
  · subst hname
    rw [flip]
    cases hcontains : Dict.contains s name with
    | true => simp [flipped, Dict.contains]
    | false => simp [flipped, add, hcontains]
  · have hcount : [name].count other = 0 := by simp [hname]
    rw [flip, hcount, flipped_zero]
    split
    · simp [Dict.contains, Ne.symm hname]
    · simp [add, Ne.symm hname]

-- A name is flipped as often as it is listed.
theorem contains_flips (names : List String) (s : Names) (name : String) :
    Dict.contains (names.foldl flip s) name = flipped (Dict.contains s name) (names.count name) := by
  induction names generalizing s with
  | nil => simp
  | cons first rest ih =>
    rw [List.foldl_cons, ih, contains_flip, ← flipped_add, ← List.count_append]
    rfl

end Names

namespace Entity

variable {e next : Entity} {changes : List Change}

theorem applyAll_keeps (h : e.applyAll changes = .ok next) :
    next.id = e.id ∧
      ((∀ change ∈ changes, change.KeepsStatuses) → next.statuses = e.statuses) := by
  obtain ⟨items, -, rfl⟩ := of_applyAll h
  refine ⟨rfl, fun hchanges => ?_⟩
  have hflips : changes.filterMap Change.flip? = [] :=
    List.filterMap_eq_nil_iff.2 fun change hchange => by
      cases change with
      | toggleStatus => exact (hchanges _ hchange).elim
      | set | setFlag | itemQuantity => rfl
  exact congrArg (List.foldl Names.flip e.statuses) hflips

theorem applyAll_toggles (e : Entity) (names : List String) :
    e.applyAll (names.map Change.toggleStatus) =
      .ok { e with statuses := names.foldl Names.flip e.statuses } := by
  induction names generalizing e with
  | nil => rfl
  | cons name names ih => exact ih { e with statuses := e.statuses.flip name }

end Entity

namespace World

-- Whether the entity with this id is kept under it and has these statuses.
def Bears (w : World) (id : String) (statuses : Names) : Prop :=
  ∃ e : Entity, Dict.find? w id = some e ∧ e.id = id ∧ e.statuses = statuses

end World

-- Whether a keeper lets an entity be read and updated, and recomputes neither its id nor its
-- statuses.
structure Keeper.Spares (keeper : Keeper) (id : String) : Prop where
  readable : keeper.unreadable id = none
  unlocked : keeper.locked id = none
  derived : ∀ e : Entity, e.id = id →
    (keeper.derive e).id = id ∧ (keeper.derive e).statuses = e.statuses

namespace World

variable {w w' : World} {keeper : Keeper} {id other : String} {statuses : Names}

theorem Bears.update {changes : List Change} (h : w.Bears id statuses) (hkeeper : keeper.Spares id)
    (hchanges : ∀ change ∈ changes, change.KeepsStatuses)
    (hupdate : w.update keeper other changes = .ok w') : w'.Bears id statuses := by
  obtain ⟨e, hfound, hid, rfl⟩ := h
  by_cases hother : id = other
  · subst hother
    obtain ⟨changed, next, hchanged, happly, rfl⟩ := of_update hupdate
    obtain rfl : e = changed := Option.some.inj (hfound.symm.trans hchanged)
    obtain ⟨hsame, hkept⟩ := Entity.applyAll_keeps happly
    obtain ⟨hderived, hstatuses⟩ := hkeeper.derived next (hsame.trans hid)
    exact ⟨keeper.derive next, by simp, hderived, hstatuses.trans (hkept hchanges)⟩
  · exact ⟨e, (find?_update hupdate hother).trans hfound, hid, rfl⟩

theorem Bears.read (h : w.Bears id statuses) (hkeeper : keeper.Spares id) :
    ∃ e, w.read keeper id = .ok e ∧ e.id = id := by
  obtain ⟨e, hfound, hid, -⟩ := h
  exact ⟨e, by simp [World.read, hkeeper.readable, hfound], hid⟩

theorem Bears.toggle (h : w.Bears id statuses) (hkeeper : keeper.Spares id) (names : List String) :
    ∃ w', w.update keeper id (names.map Change.toggleStatus) = .ok w' ∧
      w'.Bears id (names.foldl Names.flip statuses) := by
  obtain ⟨e, hfound, hid, rfl⟩ := h
  obtain ⟨hderived, hstatuses⟩ :=
    hkeeper.derived { e with statuses := names.foldl Names.flip e.statuses } hid
  refine ⟨Dict.insert w id _, ?_, _, Dict.find?_insert.trans (if_pos rfl), hderived, hstatuses⟩
  simp only [World.update, hkeeper.unlocked, hfound, Entity.applyAll_toggles]

end World

-- Whether somebody acts in these circumstances whom the store lets be read and updated, and whose
-- statuses neither the store nor the use of an item touches.
structure Setting.Spares (setting : Setting) (actor : String) : Prop where
  acts : setting.actor = actor
  keeper : setting.keeper.Spares actor
  items : ∀ user item (w : World) statuses, w.Bears actor statuses →
    (setting.useItem setting.keeper user item w).2.Bears actor statuses

-- An item that is used up leaves the statuses of all entities alone.
theorem ItemRoutine.bears_consume {keeper : Keeper} {actor : String} (h : keeper.Spares actor)
    (user : Entity) (item : Item) {w : World} {statuses : Names} (hw : w.Bears actor statuses) :
    (consume keeper user item w).2.Bears actor statuses := by
  rw [consume]
  split
  · exact hw
  · split
    · exact hw
    · split
      · next hupdate =>
        have hkeeps : (Change.itemQuantity item.id (item.quantity - 1)).KeepsStatuses := trivial
        exact hw.update h (List.forall_mem_singleton.2 hkeeps) hupdate
      · exact hw

namespace Visit

open Act

variable {v : Visit} {actor : String} {statuses : Names}

-- Carrying an operation out leaves the statuses of the actor alone.
theorem changes_bears (h : v.setting.Spares actor) (statuses : Names) :
    v.Changes (.keeping fun s => s.world.Bears actor statuses) where
  tells _ _ _ _ hs := hs
  rolls _ _ hs := hs
  updates _ _ _ _ hchanges hupdate hs := hs.update h.keeper hchanges hupdate
  uses s user _ item _ _ hs := h.items user item s.world statuses hs
  creates _ _ _ _ _ _ hs := hs
  consumes _ _ _ _ _ _ _ _ _ hs := hs

-- What follows the flips is only told.
theorem bears_announceToggles (v : Visit) (e : Entity) (announce : Bool) (s : Stage)
    (h : s.world.Bears actor statuses) :
    ((if announce then v.announceToggles e else pure () : Act Unit).run s).2.world.Bears actor
      statuses := by
  have hasides : v.Asides (.keeping fun s => s.world.Bears actor statuses) :=
    { tells _ _ _ _ h := h, rolls _ _ h := h }
  split
  · exact (Act.Does.forM (F := fun _ _ => True) (fun status => does_announce hasides _ _) _ s).1 h
  · exact h

-- The statuses that the operation lists are flipped, one after another.
theorem bears_toggle (hsetting : v.setting.Spares actor) {s : Stage}
    (h : s.world.Bears actor statuses) :
    (v.toggle.run s).2.world.Bears actor (v.op.toggles.statuses.foldl Names.flip statuses) := by
  unfold toggle
  dsimp only
  split
  · obtain ⟨e, hread, hid⟩ := h.read hsetting.keeper
    obtain ⟨w, hupdate, hw⟩ := h.toggle hsetting.keeper v.op.toggles.statuses
    subst hid
    have hentity : (v.entity v.setting.actor).run s = (.ok e, s) := by
      rw [entity, run_get_bind, hsetting.acts, hread]
      rfl
    have hupdated : (update v.setting.keeper e.id
        (v.op.toggles.statuses.map Change.toggleStatus)).run s = (.ok (), { s with world := w }) := by
      rw [Act.update, run_get_bind, hupdate]
      rfl
    have htold := v.bears_announceToggles e v.op.toggles.announce { s with world := w } hw
    rw [run_tryCatch, run_bind, hentity]
    dsimp only
    rw [run_bind, hupdated]
    dsimp only
    split
    · next hrun =>
      rw [hrun] at htold
      exact htold
    · next hrun =>
      rw [hrun] at htold
      exact htold
  · next hnone =>
    have hempty : v.op.toggles.statuses = [] := by simpa using hnone
    rw [hempty]
    exact h

end Visit

end Tabletop
