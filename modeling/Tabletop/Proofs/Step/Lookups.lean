import Tabletop.Proofs.RollData
import Tabletop.Step.Flow

-- What predicates and formulas look up: the leaves of the data of the actor, under one path in the
-- flat data of formulas and in the nested data of the actor.
namespace Tabletop

namespace RollData

variable {path : String}

-- The trees that are laid over the data of an entity, by their bases.
def overlays : List String := ["flags", "target", "activity"]

-- Whether a path leads into none of them.
def Own (path : String) : Prop := ∀ base ∈ overlays, (Path.segments path).head? ≠ some base

theorem segments_overlay : ∀ base ∈ overlays, Path.segments base = [base] := by decide

-- What is laid over other data under one of these bases is found nowhere else.
theorem find?_extend_of_head {base : String} (data : RollData) (tree : Json)
    (hbase : base ∈ overlays) (h : (Path.segments path).head? ≠ some base) :
    (data.extend base tree).find? path = data.find? path := by
  rw [extend, find?_insertAll, Entries.last?_eq_none, Option.none_or]
  rintro ⟨key, value⟩ hmem rfl
  have hne : base ≠ "" := by
    rintro rfl
    exact absurd hbase (by decide)
  obtain ⟨rest, hrest⟩ := segments_of_mem_leaves hne hmem
  refine h ?_
  rw [hrest, segments_overlay base hbase]
  rfl

theorem find?_merge_of_head {base : String} (data other : RollData) (hbase : base ∈ overlays)
    (h : (Path.segments path).head? ≠ some base) :
    (data.merge base other).find? path = data.find? path := by
  rw [merge, find?_insertAll, Entries.last?_eq_none, Option.none_or]
  rintro pair hpair rfl
  obtain ⟨⟨key, value⟩, -, rfl⟩ := List.mem_map.1 hpair
  refine h ?_
  rw [Path.segments_append, segments_overlay base hbase]
  rfl

end RollData

theorem Entity.find?_rollData (e : Entity) {path : String} (h : RollData.Own path) :
    e.rollData.find? path = (RollData.ofTree e.system).find? path :=
  RollData.find?_extend_of_head _ _ (by decide) (h _ (by decide))

theorem Visit.find?_rollData (v : Visit) (actor : Entity) (records : Records) {path : String}
    (h : RollData.Own path) :
    (v.rollData actor records).find? path = (RollData.ofTree actor.system).find? path := by
  rw [rollData, RollData.find?_extend_of_head _ _ (by decide) (h _ (by decide))]
  cases records.target? with
  | none => exact actor.find?_rollData h
  | some target =>
    exact (RollData.find?_merge_of_head _ _ (by decide) (h _ (by decide))).trans
      (actor.find?_rollData h)

-- A leaf of the data is read under the path that leads to it, by formulas and by predicates alike.
theorem Visit.actual_rollData_iff {v : Visit} {p q : Predicate} {actor : Entity} {records : Records}
    {data : RollData} {value : Json} (hp : p.source = .rollData) (hq : q.source = .system)
    (hkey : p.key = q.key) (hvalue : value ≠ .null)
    (hfind : data.find? p.key = some value ↔ actor.get? p.key = some value) :
    v.actual p actor data records = value ↔ v.actual q actor data records = value := by
  have hgetD : ∀ found : Option Json, found.getD .null = value ↔ found = some value := by
    intro found
    cases found with
    | none => simp [hvalue.symm]
    | some found => simp
  simp only [actual, hp, hq, ← hkey, hgetD, hfind]

theorem RollData.lookUp_eq_ok_iff (data : RollData) (path : String) (x : Binary64) :
    Formula.lookUp data path = .ok x ↔ data.number? path = some x := by
  rw [Formula.lookUp, number?]
  cases data.find? path with
  | none => simp
  | some value =>
    simp only [Option.bind_some]
    split
    · next y hy => simp [hy]
    · next hnone => simp [hnone]

namespace RollData

variable {tree : Json} {path : String}

-- Objects, which the flat data leave out, are no numbers either.
theorem number?_ofTree (hsettled : tree.Settled) (hpathable : tree.Pathable) (hpath : path ≠ "") :
    (ofTree tree).number? path = (tree.get? path).bind Json.toNumber? := by
  refine Option.ext fun x => ?_
  simp only [number?, Option.bind_eq_some_iff, find?_ofTree_iff hsettled hpathable hpath]
  refine exists_congr fun value => and_congr_left fun hnumber => and_iff_left ?_
  cases value with
  | obj => cases hnumber
  | _ => trivial

-- The flat data of a tree hold the leaves of the tree, each under the path that leads to it, and
-- nothing else. A step looks up in its flat data, in formulas and in predicates, what a predicate
-- finds in the nested data of the actor, on every path that leads into none of the overlays.
theorem lookups_agree (hsettled : tree.Settled) (hpathable : tree.Pathable) (hpath : path ≠ "") :
    (∀ value, (ofTree tree).find? path = some value ↔
      tree.get? path = some value ∧ value.IsLeaf) ∧
    ∀ (v : Visit) (actor : Entity) (records : Records) (data : RollData), actor.system = tree →
      data = ofTree tree ∨ data = v.rollData actor records ∧ Own path →
      (∀ p q : Predicate, p.source = .rollData → q.source = .system → p.key = path → q.key = path →
        ∀ value, value.IsLeaf → value ≠ .null →
          (v.actual p actor data records = value ↔ v.actual q actor data records = value)) ∧
      ∀ x, Formula.lookUp data path = .ok x ↔ actor.number? path = some x := by
  refine ⟨fun value => find?_ofTree_iff hsettled hpathable hpath, ?_⟩
  rintro v actor records data rfl hdata
  have hfind : data.find? path = (ofTree actor.system).find? path := by
    obtain rfl | ⟨rfl, hown⟩ := hdata
    · rfl
    · exact v.find?_rollData actor records hown
  refine ⟨fun p q hp hq hpkey hqkey value hleaf hvalue => ?_, fun x => ?_⟩
  · refine Visit.actual_rollData_iff hp hq (hpkey.trans hqkey.symm) hvalue ?_
    rw [hpkey, hfind, find?_ofTree_iff hsettled hpathable hpath]
    exact and_iff_left hleaf
  · rw [lookUp_eq_ok_iff, number?, hfind]
    exact iff_of_eq (congrArg (· = some x) (number?_ofTree hsettled hpathable hpath))

-- One leaf under two keys, one array, and one object without members.
def creature : Json :=
  .obj [("hp", .obj [("max", .obj []), ("value", .int 7)]), ("tags", .arr [.str "undead"])]

theorem lookups_agree_creature : (ofTree creature).find? "hp.value" = some (.int 7) := by
  have hsettled : creature.Settled := by
    simp only [creature, Json.Settled, Json.SettledMembers, Json.SettledItems, Entries.Ascending]
    decide
  have hpathable : creature.Pathable := by
    simp only [creature, Json.Pathable, Json.PathableMembers]
    decide
  obtain ⟨hleaves, -⟩ := lookups_agree hsettled hpathable (show "hp.value" ≠ "" by decide)
  exact (hleaves (.int 7)).2 ⟨rfl, trivial⟩

end RollData

end Tabletop
