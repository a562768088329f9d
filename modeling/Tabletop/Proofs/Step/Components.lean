import Mathlib.Algebra.GroupWithZero.Nat
import Tabletop.Proofs.Entity
import Tabletop.Proofs.Step.Restoring
import Tabletop.Proofs.World

-- The components that an operation spends. Each is checked, and its item given a new quantity,
-- against the actor as it was read, so that of several components that name one item the last one
-- counts.
namespace Tabletop

namespace Entity

-- How much of an item the components ask for, in order.
def asked (e : Entity) (components : List Component) (i : Item) : List Nat :=
  (components.filter fun c => decide (e.item? c.item = some i)).map Component.quantity

end Entity

-- The change that a component is turned into, for an item of which there is enough.
structure Component.Spends (actor : Entity) (c : Component) (change : Change) : Prop where
  covered : ∃ i, actor.item? c.item = some i ∧ c.quantity ≤ i.quantity ∧
    change = .itemQuantity i.id (i.quantity - c.quantity)

namespace Visit

variable {v : Visit} {actor : Entity} {components : List Component} {spent : List Change}

theorem spends_of_spend (h : v.spend actor components = .ok spent) :
    List.Forall₂ (Component.Spends actor) components spent := by
  refine (forall₂_of_mapM_ok h).imp fun c change hchange => ?_
  split at hchange
  · cases hchange
  · next i hi =>
    split at hchange
    · cases hchange
    · next henough =>
      cases hchange
      exact ⟨i, hi, Nat.not_lt.1 henough, rfl⟩

end Visit

namespace Entity

variable {actor : Entity} {components : List Component} {spent : List Change}

theorem only_stocks (h : List.Forall₂ (Component.Spends actor) components spent) :
    spent.filterMap Change.write? = [] ∧ spent.filterMap Change.flag? = [] ∧
      spent.filterMap Change.flip? = [] := by
  induction h with
  | nil => exact ⟨rfl, rfl, rfl⟩
  | cons hfirst _ ih =>
    obtain ⟨i, -, -, rfl⟩ := hfirst.covered
    exact ih

-- Of the quantities that are set for an item the last one comes of the last component that names it.
theorem last?_spent (hitems : (actor.items.map Item.id).Nodup)
    (h : List.Forall₂ (Component.Spends actor) components spent) {i : Item}
    (hi : i ∈ actor.items) :
    Entries.last? i.id (spent.filterMap Change.stock?) =
      (actor.asked components i).getLast?.map (i.quantity - ·) := by
  induction h with
  | nil => rfl
  | @cons c change components spent hfirst _ ih =>
    obtain ⟨j, hj, -, rfl⟩ := hfirst.covered
    simp only [List.filterMap_cons, Change.stock?, Entries.last?]
    rw [ih]
    by_cases hij : j = i
    · subst hij
      have hasked : actor.asked (c :: components) j = c.quantity :: actor.asked components j := by
        simp [asked, hj]
      rw [hasked, if_pos rfl, List.getLast?_cons]
      cases (actor.asked components j).getLast? <;> rfl
    · have hasked : actor.asked (c :: components) i = actor.asked components i := by
        simp [asked, hj, hij]
      have hid : j.id ≠ i.id := fun h => hij (eq_of_id hitems (mem_of_item? hj) hi h)
      rw [hasked, if_neg hid, Option.or_none]

theorem covered_of_spends (h : List.Forall₂ (Component.Spends actor) components spent) :
    ∀ c ∈ components, ∃ i ∈ actor.items, actor.item? c.item = some i ∧ c.quantity ≤ i.quantity := by
  induction h with
  | nil => exact List.forall_mem_nil _
  | cons hfirst _ ih =>
    obtain ⟨i, hi, henough, -⟩ := hfirst.covered
    exact List.forall_mem_cons.2 ⟨⟨i, mem_of_item? hi, hi, henough⟩, ih⟩

-- What a single component asks for is all that is asked for.
theorem sum_of_few {i : Item}
    (hcovered : ∀ c ∈ components, ∃ i ∈ actor.items,
      actor.item? c.item = some i ∧ c.quantity ≤ i.quantity)
    (hfew : (actor.asked components i).length ≤ 1) :
    (actor.asked components i).getLast?.getD 0 = (actor.asked components i).sum ∧
      (actor.asked components i).sum ≤ i.quantity := by
  have hleast : ∀ n ∈ actor.asked components i, n ≤ i.quantity := by
    intro n hn
    obtain ⟨c, hc, rfl⟩ := List.mem_map.1 hn
    obtain ⟨hmem, hnamed⟩ := List.mem_filter.1 hc
    obtain ⟨j, -, hj, henough⟩ := hcovered c hmem
    obtain rfl : j = i := Option.some.inj (hj.symm.trans (of_decide_eq_true hnamed))
    exact henough
  match hasked : actor.asked components i, hfew with
  | [], _ => exact ⟨rfl, Nat.zero_le _⟩
  | [n], _ => simpa using hleast n (by simp [hasked])

theorem items_of_spent (hitems : (actor.items.map Item.id).Nodup)
    (hspent : List.Forall₂ (Component.Spends actor) components spent) {items : List Item}
    (h : stockAll actor.items (spent.filterMap Change.stock?) = some items) :
    items = actor.items.map fun i =>
      { i with quantity := i.quantity - (actor.asked components i).getLast?.getD 0 } := by
  rw [stockAll_eq hitems h]
  refine List.map_congr_left fun i hi => ?_
  rw [last?_spent hitems hspent hi]
  cases (actor.asked components i).getLast? <;> rfl

end Entity

namespace Visit

variable {v : Visit} {m : Mend} {s s' : Stage} {actor : Entity} {recipient : String}
  {pools : List (String × Binary64)} {components : List Component} {spent : List Change}

theorem stocks_of_restored (restored : List Restored) :
    (restored.map Restored.change).filterMap Change.stock? = [] := by
  simp [List.filterMap_eq_nil_iff, Restored.change, Change.stock?]

theorem writes_of_restored (restored : List Restored) :
    (restored.map Restored.change).filterMap Change.write? = risen restored := by
  rw [risen, List.filterMap_map, ← List.filterMap_eq_map]
  rfl

-- Whether all that was computed is in the world: what the pools of the recipient rise to, and the
-- quantities of the items of the actor. The store may have recomputed the two since.
structure Committed (v : Visit) (actor : Entity) (recipient : String)
    (pools : List (String × Binary64)) (spent : List Change) (restored : List Restored)
    (w w' : World) : Prop where
  pools : ∃ target next, Dict.find? w recipient = some target ∧
    v.restoreAll target pools = .ok restored ∧
    Dict.find? w' recipient = some (v.setting.keeper.derive next) ∧
    next.system = target.system.setAll (risen restored)
  items : ∃ next, (Dict.find? w' v.setting.actor = some next ∨
      Dict.find? w' v.setting.actor = some (v.setting.keeper.derive next)) ∧
    Entity.stockAll actor.items (spent.filterMap Change.stock?) = some next.items

-- A failure leaves the actor as it is, even where somebody else was restored before it.
theorem kept_of_restoring {failure : Failure} (hid : actor.id = v.setting.actor)
    (h : v.Restoring actor recipient pools spent s (.error failure, s')) :
    Dict.find? s'.world v.setting.actor = Dict.find? s.world v.setting.actor := by
  cases h with
  | refused => rfl
  | unspent _ hother _ _ hupdate => exact World.find?_update hupdate (hid ▸ Ne.symm hother)

theorem committed_of_restoring {restored : List Restored}
    (hactor : Dict.find? s.world v.setting.actor = some actor) (hid : actor.id = v.setting.actor)
    (hspent : List.Forall₂ (Component.Spends actor) components spent)
    (h : v.Restoring actor recipient pools spent s (.ok restored, s')) :
    v.Committed actor recipient pools spent restored s.world s'.world := by
  have hwrites := (Entity.only_stocks hspent).1
  cases h with
  | own hown hrestored hupdate =>
    rw [hid] at hown hupdate
    subst hown
    obtain ⟨e, next, hfound, hnext, rfl⟩ := World.of_update hupdate
    obtain rfl : actor = e := Option.some.inj (hactor.symm.trans hfound)
    obtain ⟨items, hstocked, hsame⟩ := Entity.of_applyAll hnext
    rw [List.filterMap_append, stocks_of_restored, List.nil_append] at hstocked
    refine ⟨⟨actor, next, hactor, hrestored, by simp, ?_⟩, ⟨next, .inr (by simp), ?_⟩⟩
    · rw [hsame, List.filterMap_append, hwrites, List.append_nil, writes_of_restored]
    · rw [hstocked, hsame]
  | @other target restored between world hother hread hrestored hupdate hspend =>
    rw [hid] at hother hspend
    obtain ⟨e, raised, hfound, hnext, hbetween⟩ := World.of_update hupdate
    obtain rfl : target = e := Option.some.inj ((World.of_read hread).symm.trans hfound)
    have hsystem : raised.system = target.system.setAll (risen restored) := by
      rw [map_change, Entity.applyAll_sets] at hnext
      cases hnext
      rfl
    have hraised : Dict.find? between recipient = some (v.setting.keeper.derive raised) := by
      simp [hbetween]
    have hkept := (World.find?_update hupdate (Ne.symm hother)).trans hactor
    by_cases hnone : spent = []
    · rw [if_pos hnone] at hspend
      subst hnone hspend
      exact ⟨⟨target, raised, hfound, hrestored, hraised, hsystem⟩, ⟨actor, .inl hkept, rfl⟩⟩
    · rw [if_neg hnone] at hspend
      obtain ⟨e, next, hfound', hnext, hworld⟩ := World.of_update hspend
      obtain rfl : actor = e := Option.some.inj (hkept.symm.trans hfound')
      obtain ⟨items, hstocked, hsame⟩ := Entity.of_applyAll hnext
      refine ⟨⟨target, raised, hfound, hrestored, ?_, hsystem⟩, ⟨next, .inr (by simp [hworld]), ?_⟩⟩
      · rw [World.find?_update hspend hother]
        exact hraised
      · rw [hstocked, hsame]

-- Whether the items of the actor, as it was changed last, lost what the components ask for. The store
-- may have recomputed the actor since.
def Spent (v : Visit) (actor : Entity) (components : List Component) (s : Stage) : Prop :=
  ∃ next : Entity,
    (Dict.find? s.world v.setting.actor = some next ∨
      Dict.find? s.world v.setting.actor = some (v.setting.keeper.derive next)) ∧
    next.items = actor.items.map fun i =>
      { i with quantity := i.quantity - (actor.asked components i).getLast?.getD 0 }

theorem spent_of_restoring {restored : List Restored}
    (hactor : Dict.find? s.world v.setting.actor = some actor) (hid : actor.id = v.setting.actor)
    (hitems : (actor.items.map Item.id).Nodup)
    (hspent : List.Forall₂ (Component.Spends actor) components spent)
    (h : v.Restoring actor recipient pools spent s (.ok restored, s')) :
    v.Spent actor components s' := by
  obtain ⟨next, hstored, hstocked⟩ := (committed_of_restoring hactor hid hspent h).items
  exact ⟨next, hstored, Entity.items_of_spent hitems hspent hstocked⟩

-- Where no two items have one id, an operation that fails leaves the actor as it is, and one that
-- does not fail takes from every item what the last of its components asks for, which is no more than
-- there was. That is all that is asked for where no more than one component names the item, so that
-- the operation fails where that is more than there is. Where several do, the others are not taken.
theorem components_spent (hkind : v.op.kind.mend? v.setting.rules.paths = some m)
    (hactor : Dict.find? s.world v.setting.actor = some actor) (hid : actor.id = v.setting.actor)
    (hitems : (actor.items.map Item.id).Nodup) :
    (∀ failure s', v.begin.run s = (.error failure, s') →
      Dict.find? s'.world v.setting.actor = some actor) ∧
    ∀ outcome s', v.begin.run s = (.ok outcome, s') →
      (∀ c ∈ m.components, ∃ i ∈ actor.items,
        actor.item? c.item = some i ∧ c.quantity ≤ i.quantity) ∧
      v.Spent actor m.components s' ∧
      ∀ i ∈ actor.items, (actor.asked m.components i).length ≤ 1 →
        (actor.asked m.components i).getLast?.getD 0 = (actor.asked m.components i).sum ∧
          (actor.asked m.components i).sum ≤ i.quantity := by
  have hmending := v.mending hkind s
  generalize v.begin.run s = begun at hmending
  have hread : ∀ e, s.world.read v.setting.keeper v.setting.actor = .ok e → e = actor :=
    fun e he => Option.some.inj ((World.of_read he).symm.trans hactor)
  cases hmending with
  | refused hasides =>
    refine ⟨?_, fun _ _ hok => nomatch hok⟩
    rintro _ _ ⟨⟩
    rw [hasides.2.2.1]
    exact hactor
  | failed hprepared hrestoring =>
    refine ⟨?_, fun _ _ hok => nomatch hok⟩
    rintro _ _ ⟨⟩
    obtain rfl := hread _ hprepared.read
    rw [← hprepared.asides.2.2.1] at hactor
    exact (kept_of_restoring hid hrestoring).trans hactor
  | @mended actor' recipient pools spent s₁ s₂ s₃ restored outcome hprepared hrestoring hasides =>
    refine ⟨fun _ _ herror => (nomatch herror), ?_⟩
    rintro _ _ ⟨⟩
    obtain rfl := hread _ hprepared.read
    have hspends := spends_of_spend hprepared.spend
    rw [← hprepared.asides.2.2.1] at hactor
    have hspent := spent_of_restoring hactor hid hitems hspends hrestoring
    have hcovered := Entity.covered_of_spends hspends
    refine ⟨hcovered, ?_, fun i hi hfew => Entity.sum_of_few hcovered hfew⟩
    simpa only [Spent, hasides.2.2.1] using hspent

-- A poultice of herbs, which are named by their id and once more by their name.
def poultice : Visit where
  setting := { actor := "hero" }
  plan := { id := "poultice" }
  op := { id := "bind", kind := .heal "2" none .actor [⟨"h1", 2⟩, ⟨"Herb", 1⟩] }

def wounded : Stage where
  records := {}
  ledger := {}
  world := World.ofList [
    { id := "hero", name := "Hero"
      system := .obj [("hp", .obj [("max", .int 10), ("value", .int 3)])]
      items := [⟨"h1", "Herb", none, 5, true⟩] }]
  dice := .highest
  events := []

-- Three of the five herbs are asked for, and one is taken.
theorem components_spent_poultice :
    ∃ hero outcome s', Dict.find? wounded.world "hero" = some hero ∧ hero.id = "hero" ∧
      (hero.items.map Item.id).Nodup ∧
      hero.items.map (hero.asked [⟨"h1", 2⟩, ⟨"Herb", 1⟩]) = [[2, 1]] ∧
      poultice.begin.run wounded = (.ok outcome, s') ∧
      ∃ next : Entity, Dict.find? s'.world "hero" = some next ∧
        next.items.map Item.quantity = [4] := by
  have hkind : poultice.op.kind.mend? poultice.setting.rules.paths =
      some ⟨.actor, [⟨"h1", 2⟩, ⟨"Herb", 1⟩], ["hp"]⟩ := rfl
  have hhero : Dict.find? wounded.world "hero" = some
      { id := "hero", name := "Hero"
        system := .obj [("hp", .obj [("max", .int 10), ("value", .int 3)])]
        items := [⟨"h1", "Herb", none, 5, true⟩] } := by cbv
  have hbegun : (poultice.begin.run wounded).1.isOk = true := by decide +kernel
  have hdistinct : ([⟨"h1", "Herb", none, 5, true⟩].map Item.id).Nodup := by simp
  rcases hrun : poultice.begin.run wounded with ⟨result, s'⟩
  rw [hrun] at hbegun
  cases result with
  | error failure => cases hbegun
  | ok outcome =>
    obtain ⟨-, hspent⟩ := components_spent (v := poultice) hkind hhero rfl hdistinct
    obtain ⟨-, ⟨next, hnext, hleft⟩, -⟩ := hspent outcome s' hrun
    refine ⟨_, outcome, s', hhero, rfl, hdistinct, by decide, rfl, next, hnext.elim id id, ?_⟩
    rw [hleft]
    decide

end Visit

end Tabletop
