import Mathlib.Data.List.Nodup
import Tabletop.Proofs.Json.Write
import Tabletop.World

-- What a list of changes makes of an entity. Each part of it is made by the changes of one kind, and
-- no change can be refused but that of a quantity.
namespace Tabletop

namespace Change

-- What a change writes in the system data and at which path, the flag that it sets, the quantity that
-- it gives an item, and the status that it flips, if any.
def write? : Change → Option (String × Json)
  | .set path value => some (path, value)
  | _ => none

def flag? : Change → Option (String × Json)
  | .setFlag key value => some (key, value)
  | _ => none

def stock? : Change → Option (String × Nat)
  | .itemQuantity item quantity => some (item, quantity)
  | _ => none

def flip? : Change → Option String
  | .toggleStatus status => some status
  | _ => none

end Change

namespace Json

-- Values that are written one after another.
def setAll (root : Json) (writes : List (String × Json)) : Json :=
  writes.foldl (fun root (path, value) => root.set path value) root

theorem setAll_cons (root : Json) (path : String) (value : Json) (writes : List (String × Json)) :
    root.setAll ((path, value) :: writes) = (root.set path value).setAll writes := rfl

-- The last value that was written at a path is found there, if nothing was written above or below.
theorem follow?_setAll {root : Json} {writes : List (String × Json)} {path : String}
    (h : ∀ w ∈ writes, w.1 = path ∨ Path.Apart (Path.segments w.1) (Path.segments path)) :
    (root.setAll writes).follow? (Path.segments path) =
      (Entries.last? path writes).or (root.follow? (Path.segments path)) := by
  induction writes generalizing root with
  | nil => rfl
  | cons first rest ih =>
    obtain ⟨p, value⟩ := first
    rw [List.forall_mem_cons] at h
    rw [setAll_cons, ih h.2, Entries.last?, Option.or_assoc]
    congr 1
    by_cases hp : p = path
    · subst hp
      rw [if_pos rfl, Json.set, follow?_write]
      rfl
    · rw [if_neg hp, Json.set, follow?_write_of_apart (h.1.resolve_left hp)]
      rfl

theorem sameApart_setAll (root : Json) (writes : List (String × Json)) :
    root.SameApart (writes.map fun w => Path.segments w.1) (root.setAll writes) := by
  induction writes generalizing root with
  | nil => exact .refl _ _
  | cons first rest ih =>
    rw [setAll_cons, List.map_cons]
    exact (SameApart.write List.mem_cons_self).trans ((ih _).mono (List.subset_cons_self _ _))

end Json

namespace Entity

theorem mem_of_item? {e : Entity} {reference : String} {item : Item}
    (h : e.item? reference = some item) : item ∈ e.items := by
  unfold item? at h
  cases hid : e.items.find? fun i => i.id == reference with
  | some found =>
    rw [hid] at h
    cases h
    exact List.mem_of_find?_eq_some hid
  | none =>
    rw [hid] at h
    exact List.mem_of_find?_eq_some h

variable {e next : Entity} {change : Change} {changes : List Change} {items items' : List Item}

theorem number?_eq {path : String} (hpath : path ≠ "") :
    e.number? path = (e.system.follow? (Path.segments path)).bind Json.toNumber? := by
  rw [number?, get?, Json.get?_eq_follow?, Path.keys_of_ne hpath]

-- Where numbers are written over numbers, the last one that was written at a path is read there.
theorem number?_setAll {writes : List (String × Json)} {path : String} {x : Binary64}
    (hwrites : ∀ w ∈ writes, w.1 ≠ "" ∧ ∃ y, e.number? w.1 = some y) (hpath : path ≠ "")
    (hx : e.number? path = some x) :
    { e with system := e.system.setAll writes }.number? path =
      ((Entries.last? path writes).or (e.get? path)).bind Json.toNumber? := by
  have hway : (e.system.follow? (Path.segments path)).bind Json.toNumber? = some x := by
    rw [← number?_eq hpath, hx]
  rw [number?_eq hpath, Json.follow?_setAll fun w hw => ?_, get?, Json.get?_eq_follow?,
    Path.keys_of_ne hpath]
  obtain ⟨hne, y, hy⟩ := hwrites w hw
  rw [number?_eq hne] at hy
  refine or_iff_not_imp_left.2 fun hother => Json.apart_of_numbers hy hway fun hsame => ?_
  exact hother (Path.segments_injective hsame)

-- A number that is written over another one changes no number that stands elsewhere.
theorem number?_set {path other : String} {value : Json} {x y : Binary64} (hpath : path ≠ "")
    (hx : e.number? path = some x) (hy : value.toNumber? = some y) (hother : other ≠ path) :
    { e with system := e.system.set path value }.number? other = e.number? other := by
  have hread : ∀ (e : Entity) p,
      e.number? p = (e.system.follow? (Path.keys p)).bind Json.toNumber? := by
    intro e p
    rw [number?, get?, Json.get?_eq_follow?]
  have hkeys : Path.keys path ≠ Path.keys other := fun h => hother (Path.keys_injective h).symm
  have hafter : ((e.system.write value (Path.keys path)).follow? (Path.keys path)).bind
      Json.toNumber? = some y := by
    rw [Json.follow?_write]
    exact hy
  rw [hread] at hx
  rw [hread, hread, Json.set, ← Path.keys_of_ne hpath]
  ext z
  constructor
  · intro hz
    rwa [Json.follow?_write_of_apart (Json.apart_of_numbers hafter hz hkeys)] at hz
  · intro hz
    rwa [Json.follow?_write_of_apart (Json.apart_of_numbers hx hz hkeys)]

-- Where no two items have one id, the id tells the item.
theorem eq_of_id (hitems : (e.items.map Item.id).Nodup) {i j : Item} (hi : i ∈ e.items)
    (hj : j ∈ e.items) (h : i.id = j.id) : i = j :=
  List.inj_on_of_nodup_map hitems hi hj h

theorem setQuantity_eq {id : String} {quantity : Nat} (hitems : (items.map Item.id).Nodup)
    (h : setQuantity id quantity items = some items') :
    items' = items.map fun i => if i.id = id then { i with quantity } else i := by
  induction items generalizing items' with
  | nil => cases h
  | cons item rest ih =>
    rw [List.map_cons, List.nodup_cons] at hitems
    rw [setQuantity] at h
    split at h
    · next hid =>
      cases h
      have hrest : ∀ i ∈ rest, (if i.id = id then { i with quantity } else i) = i := by
        intro i hi
        refine if_neg fun heq => hitems.1 ?_
        rw [hid, ← heq]
        exact List.mem_map_of_mem hi
      rw [List.map_cons, if_pos hid, List.map_congr_left hrest, List.map_id']
    · next hid =>
      obtain ⟨rest', hrest, rfl⟩ := Option.map_eq_some_iff.1 h
      rw [List.map_cons, if_neg hid, ih hitems.2 hrest]

-- Quantities that are set one after another, as long as there are items with these ids.
def stockAll (items : List Item) (stocks : List (String × Nat)) : Option (List Item) :=
  stocks.foldlM (fun items (id, quantity) => setQuantity id quantity items) items

theorem stockAll_cons (items : List Item) (id : String) (quantity : Nat)
    (stocks : List (String × Nat)) :
    stockAll items ((id, quantity) :: stocks) =
      (setQuantity id quantity items).bind fun items => stockAll items stocks := rfl

-- Where no two items have one id, an item has the last quantity that was set for it.
theorem stockAll_eq {stocks : List (String × Nat)} (hitems : (items.map Item.id).Nodup)
    (h : stockAll items stocks = some items') :
    items' = items.map fun i =>
      { i with quantity := (Entries.last? i.id stocks).getD i.quantity } := by
  induction stocks generalizing items with
  | nil =>
    cases h
    exact (List.map_id' _).symm
  | cons first rest ih =>
    obtain ⟨id, quantity⟩ := first
    rw [stockAll_cons] at h
    obtain ⟨middle, hfirst, hrest⟩ := Option.bind_eq_some_iff.1 h
    have hmiddle := setQuantity_eq hitems hfirst
    have hids : middle.map Item.id = items.map Item.id := by
      rw [hmiddle, List.map_map]
      refine List.map_congr_left fun i _ => ?_
      simp only [Function.comp_apply]
      split <;> rfl
    rw [ih (hids ▸ hitems) hrest, hmiddle, List.map_map]
    refine List.map_congr_left fun i _ => ?_
    by_cases hi : id = i.id
    · subst hi
      simp only [Function.comp_apply, if_true, Entries.last?]
      cases Entries.last? i.id rest <;> rfl
    · simp only [Function.comp_apply, if_neg (Ne.symm hi), Entries.last?, if_neg hi, Option.or_none]

-- The whole outcome of changes that are made.
theorem of_applyAll (h : e.applyAll changes = .ok next) :
    ∃ items, stockAll e.items (changes.filterMap Change.stock?) = some items ∧
      next = { e with
        system := e.system.setAll (changes.filterMap Change.write?)
        flags := (changes.filterMap Change.flag?).foldl (fun d (k, v) => Dict.insert d k v) e.flags
        statuses := (changes.filterMap Change.flip?).foldl Names.flip e.statuses
        items } := by
  induction changes generalizing e with
  | nil =>
    cases h
    exact ⟨next.items, rfl, rfl⟩
  | cons change changes ih =>
    rw [applyAll, List.foldlM_cons] at h
    cases happly : e.apply change with
    | error failure =>
      rw [happly] at h
      cases h
    | ok middle =>
      rw [happly] at h
      obtain ⟨items, hitems, hnext⟩ := ih h
      cases change with
      | itemQuantity item quantity =>
        simp only [apply] at happly
        split at happly
        · next stocked hstocked =>
          cases happly
          refine ⟨items, ?_, hnext⟩
          simp only [List.filterMap_cons, Change.stock?, stockAll_cons, hstocked]
          exact hitems
        · cases happly
      | set | setFlag | toggleStatus =>
        cases happly
        exact ⟨items, hitems, hnext⟩

-- Values that are written one after another, and nothing else.
theorem applyAll_sets (e : Entity) (writes : List (String × Json)) :
    e.applyAll (writes.map fun w => .set w.1 w.2) =
      .ok { e with system := e.system.setAll writes } := by
  induction writes generalizing e with
  | nil => rfl
  | cons w writes ih => exact ih { e with system := e.system.set w.1 w.2 }

end Entity

end Tabletop
