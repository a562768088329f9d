import Tabletop.Proofs.Dict
import Tabletop.Proofs.Json.Path
import Tabletop.RollData

-- What the leaves of a tree are found under: the paths that lead to them in the tree.
namespace Tabletop

namespace Json

mutual

-- Whether a path can tell all keys on the way to a leaf: none is empty, and none has a point.
-- Nothing within an array is on the way to a leaf.
def Pathable : Json → Prop
  | .obj members => PathableMembers members
  | _ => True

def PathableMembers : List (String × Json) → Prop
  | [] => True
  | (key, child) :: rest =>
    (key ≠ "" ∧ '.' ∉ key.toList) ∧ child.Pathable ∧ PathableMembers rest

end

-- Whether a value has no members of its own.
def IsLeaf : Json → Prop
  | .obj _ => False
  | _ => True

end Json

namespace Entries

variable {α : Type u} {key : String} {value : α} {pairs : List (String × α)}

-- Where a key stands for one value only, the last pair is as good as any.
theorem last?_eq_some_iff (h : ∀ v w, (key, v) ∈ pairs → (key, w) ∈ pairs → v = w) :
    last? key pairs = some value ↔ (key, value) ∈ pairs := by
  refine ⟨mem_of_last?, fun hmem => ?_⟩
  cases hlast : last? key pairs with
  | some found => rw [h found value (mem_of_last? hlast) hmem]
  | none =>
    induction pairs with
    | nil => cases hmem
    | cons pair pairs ih =>
      rw [last?, Option.or_eq_none_iff] at hlast
      obtain rfl | hmem := List.mem_cons.1 hmem
      · simp at hlast
      · exact ih (fun v w hv hw => h v w (.tail _ hv) (.tail _ hw)) hmem hlast.1

end Entries

namespace RollData

variable {base key path : String} {value : Json}

theorem find?_insertAll (data : RollData) (pairs : List (String × Json)) :
    (data.insertAll pairs).find? path = (Entries.last? path pairs).or (data.find? path) :=
  Dict.find?_foldl_insert pairs data

theorem keys_join (hne : key ≠ "") (hpoint : '.' ∉ key.toList) :
    Path.keys (join base key) = Path.keys base ++ [key] := by
  by_cases hbase : base = ""
  · subst hbase
    exact (Path.keys_of_ne hne).trans (Path.segments_of_not_mem hpoint)
  · have hjoin : join base key = base ++ "." ++ key :=
      if_neg fun hempty => hbase (String.isEmpty_iff.1 hempty)
    rw [hjoin, Path.keys_of_ne (by simp), Path.keys_of_ne hbase, Path.segments_append,
      Path.segments_of_not_mem hpoint]

theorem leaves_of_isLeaf {tree : Json} (h : tree.IsLeaf) :
    leaves base tree = if base.isEmpty then [] else [(base, tree)] := by
  cases tree <;> first | exact h.elim | rfl

theorem mem_leaves_of_isLeaf {tree : Json} (h : tree.IsLeaf) :
    (path, value) ∈ leaves base tree ↔ path ≠ "" ∧ value.IsLeaf ∧
      ∃ rest, Path.keys path = Path.keys base ++ rest ∧ tree.follow? rest = some value := by
  have hfollow : ∀ rest, tree.follow? rest = some value ↔ rest = [] ∧ value = tree := by
    intro rest
    cases rest with
    | nil => simp [Json.follow?, eq_comm]
    | cons key rest => cases tree <;> first | exact h.elim | simp [Json.follow?, Json.member?]
  simp only [hfollow, leaves_of_isLeaf h]
  constructor
  · intro hmem
    split at hmem
    · cases hmem
    · next hbase =>
      obtain ⟨rfl, rfl⟩ := Prod.mk.inj (List.mem_singleton.1 hmem)
      exact ⟨fun hempty => hbase (by simp [hempty]), h, [], by simp, rfl, rfl⟩
  · rintro ⟨hpath, -, _, hkeys, rfl, rfl⟩
    obtain rfl := Path.keys_injective (hkeys.trans (List.append_nil _))
    rw [if_neg (fun hempty => hpath (String.isEmpty_iff.1 hempty))]
    exact List.mem_singleton_self _

mutual

-- The leaves of a tree under a base are those to which paths lead from there.
theorem mem_leaves_iff : ∀ {tree : Json} {base : String}, tree.Settled → tree.Pathable →
    ((path, value) ∈ leaves base tree ↔ path ≠ "" ∧ value.IsLeaf ∧
      ∃ rest, Path.keys path = Path.keys base ++ rest ∧ tree.follow? rest = some value)
  | .obj members, base, hsettled, hpathable => by
    rw [leaves, mem_memberLeaves_iff hsettled.2 hpathable]
    constructor
    · rintro ⟨hpath, hleaf, key, child, rest, hmem, hkeys, hfound⟩
      have hchild := (Entries.mem_iff_find? hsettled.1).1 hmem
      exact ⟨hpath, hleaf, key :: rest, hkeys, by simpa [Json.follow?, Json.member?, hchild]⟩
    · rintro ⟨hpath, hleaf, rest, hkeys, hfound⟩
      cases rest with
      | nil =>
        cases hfound
        cases hleaf
      | cons key rest =>
        rw [Json.follow?, Json.member?] at hfound
        split at hfound
        · next child hchild =>
          have hmem := (Entries.mem_iff_find? hsettled.1).2 hchild
          exact ⟨hpath, hleaf, key, child, rest, hmem, hkeys, hfound⟩
        · cases hfound
  | .null, _, _, _ => mem_leaves_of_isLeaf trivial
  | .bool _, _, _, _ => mem_leaves_of_isLeaf trivial
  | .int _, _, _, _ => mem_leaves_of_isLeaf trivial
  | .float _, _, _, _ => mem_leaves_of_isLeaf trivial
  | .str _, _, _, _ => mem_leaves_of_isLeaf trivial
  | .arr _, _, _, _ => mem_leaves_of_isLeaf trivial

theorem mem_memberLeaves_iff : ∀ {members : List (String × Json)} {base : String},
    Json.SettledMembers members → Json.PathableMembers members →
    ((path, value) ∈ memberLeaves base members ↔ path ≠ "" ∧ value.IsLeaf ∧
      ∃ key child rest, (key, child) ∈ members ∧
        Path.keys path = Path.keys base ++ key :: rest ∧ child.follow? rest = some value)
  | [], _, _, _ => by simp [memberLeaves]
  | (key, child) :: members, base, hsettled, hpathable => by
    obtain ⟨⟨hne, hpoint⟩, hchild, hmembers⟩ := hpathable
    rw [memberLeaves, List.mem_append, mem_leaves_iff hsettled.1 hchild,
      mem_memberLeaves_iff hsettled.2 hmembers, keys_join hne hpoint]
    constructor
    · rintro (⟨hpath, hleaf, rest, hkeys, hfound⟩ | ⟨hpath, hleaf, other, found, rest, hmem, hrest⟩)
      · rw [List.append_assoc] at hkeys
        exact ⟨hpath, hleaf, key, child, rest, List.mem_cons_self, hkeys, hfound⟩
      · exact ⟨hpath, hleaf, other, found, rest, List.mem_cons_of_mem _ hmem, hrest⟩
    · rintro ⟨hpath, hleaf, other, found, rest, hmem, hkeys, hfound⟩
      obtain hfirst | hmem := List.mem_cons.1 hmem
      · cases hfirst
        exact .inl ⟨hpath, hleaf, rest, by rw [hkeys, List.append_assoc]; rfl, hfound⟩
      · exact .inr ⟨hpath, hleaf, other, found, rest, hmem, hkeys, hfound⟩

end

-- What is found in the roll data of a tree is what is found in the tree, without the objects.
theorem find?_ofTree_iff {tree : Json} (hsettled : tree.Settled) (hpathable : tree.Pathable)
    (hpath : path ≠ "") :
    (ofTree tree).find? path = some value ↔ tree.get? path = some value ∧ value.IsLeaf := by
  have hmem : ∀ v, (path, v) ∈ leaves "" tree ↔ tree.get? path = some v ∧ v.IsLeaf := by
    intro v
    have hroot : Path.keys "" = [] := rfl
    rw [mem_leaves_iff hsettled hpathable, Json.get?_eq_follow?, hroot]
    constructor
    · rintro ⟨-, hleaf, rest, rfl, hfound⟩
      exact ⟨hfound, hleaf⟩
    · rintro ⟨hfound, hleaf⟩
      exact ⟨hpath, hleaf, _, rfl, hfound⟩
  have hnone : Dict.find? (Dict.empty : RollData) path = none := rfl
  rw [ofTree, extend, find?_insertAll, hnone, Option.or_none, Entries.last?_eq_some_iff, hmem]
  intro v w hv hw
  exact Option.some.inj (((hmem v).1 hv).1.symm.trans ((hmem w).1 hw).1)

/-! The overlays of other trees -/

theorem segments_join (hbase : base ≠ "") :
    Path.segments (join base key) = Path.segments base ++ Path.segments key := by
  rw [join, if_neg (fun hempty => hbase (String.isEmpty_iff.1 hempty)), Path.segments_append]

theorem segments_of_mem_leaf {tree : Json} (h : (path, value) ∈ leaves base tree)
    (hleaf : tree.IsLeaf) : ∃ rest, Path.segments path = Path.segments base ++ rest := by
  rw [leaves_of_isLeaf hleaf] at h
  split at h
  · cases h
  · obtain ⟨rfl, -⟩ := Prod.mk.inj (List.mem_singleton.1 h)
    exact ⟨[], (List.append_nil _).symm⟩

mutual

-- Every leaf under a base is found under a path that begins with the base, whatever the keys are.
theorem segments_of_mem_leaves : ∀ {tree : Json} {base : String}, base ≠ "" →
    (path, value) ∈ leaves base tree →
    ∃ rest, Path.segments path = Path.segments base ++ rest
  | .obj members, _, hbase, h => segments_of_mem_memberLeaves hbase (by rwa [leaves] at h)
  | .null, _, _, h => segments_of_mem_leaf h trivial
  | .bool _, _, _, h => segments_of_mem_leaf h trivial
  | .int _, _, _, h => segments_of_mem_leaf h trivial
  | .float _, _, _, h => segments_of_mem_leaf h trivial
  | .str _, _, _, h => segments_of_mem_leaf h trivial
  | .arr _, _, _, h => segments_of_mem_leaf h trivial

theorem segments_of_mem_memberLeaves : ∀ {members : List (String × Json)} {base : String},
    base ≠ "" → (path, value) ∈ memberLeaves base members →
    ∃ rest, Path.segments path = Path.segments base ++ rest
  | [], _, _, h => by
    rw [memberLeaves] at h
    cases h
  | (key, child) :: members, base, hbase, h => by
    rw [memberLeaves, List.mem_append] at h
    obtain hchild | hmembers := h
    · obtain ⟨rest, hrest⟩ := segments_of_mem_leaves (by simp [join, hbase]) hchild
      exact ⟨Path.segments key ++ rest, by rw [hrest, segments_join hbase, List.append_assoc]⟩
    · exact segments_of_mem_memberLeaves hbase hmembers

end

end RollData

end Tabletop
