import Tabletop.Proofs.Step.Lookups

-- What formulas look up under the bases of the trees that are laid over the data of the actor.
namespace Tabletop

namespace Entries

variable {α : Type u} {f : String → String} {key : String}

theorem last?_map_key (hf : Function.Injective f) (pairs : List (String × α)) :
    last? (f key) (pairs.map fun p => (f p.1, p.2)) = last? key pairs := by
  induction pairs with
  | nil => rfl
  | cons pair pairs ih => simp only [List.map_cons, last?, ih, hf.eq_iff]

end Entries

namespace RollData

variable {base path key : String} {tree : Json}

theorem find?_empty (path : String) : Dict.find? (Dict.empty : RollData) path = none := rfl

-- What is laid over other data goes before it and leaves the rest of it.
theorem find?_extend (data : RollData) (base : String) (tree : Json) :
    (data.extend base tree).find? path =
      ((extend Dict.empty base tree).find? path).or (data.find? path) := by
  rw [extend, extend, find?_insertAll, find?_insertAll, find?_empty, Option.or_none]

theorem find?_merge (data : RollData) (base : String) (other : RollData) :
    (data.merge base other).find? path =
      ((merge Dict.empty base other).find? path).or (data.find? path) := by
  rw [merge, merge, find?_insertAll, find?_insertAll, find?_empty, Option.or_none]

theorem prepend_injective (lead : String) : Function.Injective (lead ++ ·) := by
  intro path other h
  have hlists := congrArg String.toList h
  simp only [String.toList_append] at hlists
  exact String.toList_injective (List.append_cancel_left hlists)

-- Other flat data are found under their keys, behind the base.
theorem find?_merge_base (base : String) (other : RollData) :
    (merge Dict.empty base other).find? (base ++ "." ++ key) = other.find? key := by
  rw [merge, find?_insertAll, find?_empty, Option.or_none,
    Entries.last?_map_key (prepend_injective (base ++ ".")), ← Dict.find?_ofList,
    Dict.ofList_entries]

theorem leaves_append_of_isLeaf (lead : String) (hbase : base ≠ "") (h : tree.IsLeaf) :
    leaves (lead ++ base) tree = (leaves base tree).map fun p => (lead ++ p.1, p.2) := by
  rw [leaves_of_isLeaf h, leaves_of_isLeaf h, if_neg (by simp [hbase]), if_neg (by simp [hbase])]
  rfl

theorem join_append (lead : String) (hbase : base ≠ "") (key : String) :
    join (lead ++ base) key = lead ++ join base key := by
  rw [join, join, if_neg (by simp [hbase]), if_neg (by simp [hbase])]
  simp only [String.append_assoc]

mutual

-- What stands before the base stands before the path of every leaf.
theorem leaves_append (lead : String) : ∀ {tree : Json} {base : String}, base ≠ "" →
    leaves (lead ++ base) tree = (leaves base tree).map fun p => (lead ++ p.1, p.2)
  | .obj members, _, hbase => by
    rw [leaves, leaves, memberLeaves_append lead hbase]
  | .null, _, hbase => leaves_append_of_isLeaf lead hbase trivial
  | .bool _, _, hbase => leaves_append_of_isLeaf lead hbase trivial
  | .int _, _, hbase => leaves_append_of_isLeaf lead hbase trivial
  | .float _, _, hbase => leaves_append_of_isLeaf lead hbase trivial
  | .str _, _, hbase => leaves_append_of_isLeaf lead hbase trivial
  | .arr _, _, hbase => leaves_append_of_isLeaf lead hbase trivial

theorem memberLeaves_append (lead : String) : ∀ {members : List (String × Json)} {base : String},
    base ≠ "" →
    memberLeaves (lead ++ base) members =
      (memberLeaves base members).map fun p => (lead ++ p.1, p.2)
  | [], _, _ => rfl
  | (key, child) :: members, base, hbase => by
    have hjoin : join base key ≠ "" := by simp [join, hbase]
    rw [memberLeaves, memberLeaves, join_append lead hbase, leaves_append lead hjoin,
      memberLeaves_append lead hbase, List.map_append]

end

-- At the root a member without a name would leave its place to its own members, and nowhere else.
theorem memberLeaves_root {members : List (String × Json)} (hbase : base ≠ "")
    (h : ∀ entry ∈ members, entry.1 ≠ "") :
    memberLeaves base members =
      (memberLeaves "" members).map fun p => (base ++ "." ++ p.1, p.2) := by
  induction members with
  | nil => rfl
  | cons entry members ih =>
    obtain ⟨key, child⟩ := entry
    rw [List.forall_mem_cons] at h
    have hroot : join "" key = key := rfl
    have hjoin : join base key = base ++ "." ++ key := if_neg (by simpa using hbase)
    rw [memberLeaves, memberLeaves, hroot, hjoin, leaves_append (base ++ ".") h.1, ih h.2,
      List.map_append]

-- The leaves of a tree are found under their paths in it, behind the base.
theorem find?_extend_base (hbase : base ≠ "") (h : tree.member? "" = none) :
    (extend Dict.empty base tree).find? (base ++ "." ++ key) = (ofTree tree).find? key := by
  rw [ofTree, extend, extend, find?_insertAll, find?_insertAll, find?_empty, find?_empty,
    Option.or_none, Option.or_none]
  by_cases hleaf : tree.IsLeaf
  · rw [leaves_of_isLeaf hleaf, leaves_of_isLeaf hleaf, if_neg (by simpa using hbase),
      if_pos (show "".isEmpty = true from rfl)]
    refine Entries.last?_eq_none fun pair hpair heq => ?_
    obtain rfl := List.mem_singleton.1 hpair
    have hlength := congrArg String.length heq
    have hpoint : ".".length = 1 := rfl
    simp only [String.length_append, hpoint] at hlength
    omega
  · cases tree with
    | obj members =>
      rw [leaves, leaves, memberLeaves_root hbase fun entry => Entries.ne_of_find?_eq_none h,
        Entries.last?_map_key (prepend_injective (base ++ "."))]
    | _ => exact absurd trivial hleaf

theorem find?_ofTree_single (hpath : path ≠ "") :
    (ofTree (.obj [(path, .int 1)])).find? path = some (.int 1) := by
  have hroot : join "" path = path := rfl
  have hleaf : (Json.int 1).IsLeaf := trivial
  rw [ofTree, extend, find?_insertAll, find?_empty, Option.or_none, leaves, memberLeaves, hroot,
    leaves_of_isLeaf hleaf, if_neg (by simpa using hpath)]
  simp [memberLeaves, Entries.last?]

end RollData

-- The trees that are laid over the data of the actor.
inductive Overlay where
  | flags
  | target
  | activity

namespace Overlay

def base : Overlay → String
  | .flags => "flags"
  | .target => "target"
  | .activity => "activity"

def path (o : Overlay) (key : String) : String := o.base ++ "." ++ key

variable {o : Overlay} {key : String}

theorem path_ne_empty : o.path key ≠ "" := by
  cases o <;> simp [path]

theorem head?_path : (Path.segments (o.path key)).head? = some o.base := by
  have hbase : Path.segments o.base = [o.base] :=
    RollData.segments_overlay o.base (by cases o <;> decide)
  rw [path, Path.segments_append, hbase]
  rfl

end Overlay

namespace Visit

variable {o : Overlay} {key : String} {actor : Entity}

-- What is laid over the data of the actor, by itself.
def laid (v : Visit) (actor : Entity) (records : Records) : Overlay → RollData
  | .flags => RollData.extend Dict.empty "flags" (.ofDict actor.flags)
  | .target => match records.target? with
    | some t => RollData.merge Dict.empty "target" t.rollData
    | none => Dict.empty
  | .activity => RollData.extend Dict.empty "activity" v.plan.system

-- What the flat data of the tree that is laid over tell of a key.
def datum? (v : Visit) (actor : Entity) (records : Records) (key : String) : Overlay → Option Json
  | .flags => (RollData.ofTree (.ofDict actor.flags)).find? key
  | .target => records.target?.bind fun t => t.rollData.find? key
  | .activity => (RollData.ofTree v.plan.system).find? key

-- Whether every member at the root of the tree has a name. One that has none leaves no trace of
-- itself in the flat data of the tree, but a point behind the base of an overlay.
def Named (v : Visit) (actor : Entity) : Overlay → Prop
  | .flags => Dict.find? actor.flags "" = none
  | .target => True
  | .activity => v.plan.system.member? "" = none

theorem find?_laid {v : Visit} (records : Records) (h : v.Named actor o) :
    (v.laid actor records o).find? (o.path key) = v.datum? actor records key o := by
  cases o with
  | flags => exact RollData.find?_extend_base (by decide) h
  | target =>
    rw [laid, datum?]
    cases records.target? with
    | none => rfl
    | some t => exact RollData.find?_merge_base "target" t.rollData
  | activity => exact RollData.find?_extend_base (by decide) h

-- What is laid over the data of the actor goes before them. They show where it ends.
theorem find?_rollData_path (v : Visit) (actor : Entity) (records : Records) (o : Overlay)
    (key : String) :
    (v.rollData actor records).find? (o.path key) =
      ((v.laid actor records o).find? (o.path key)).or
        ((RollData.ofTree actor.system).find? (o.path key)) := by
  have hhead : ∀ base, base ≠ o.base → (Path.segments (o.path key)).head? ≠ some base := by
    intro base hbase h
    exact hbase (Option.some.inj (h.symm.trans Overlay.head?_path))
  have hflags : o.base ≠ "flags" → actor.rollData.find? (o.path key) =
      (RollData.ofTree actor.system).find? (o.path key) := fun hbase =>
    RollData.find?_extend_of_head _ _ (by decide) (hhead "flags" hbase.symm)
  rw [rollData]
  cases o with
  | flags =>
    rw [RollData.find?_extend_of_head _ _ (by decide) (hhead "activity" (by decide))]
    have hown : actor.rollData.find? (Overlay.flags.path key) =
        ((v.laid actor records .flags).find? (Overlay.flags.path key)).or
          ((RollData.ofTree actor.system).find? (Overlay.flags.path key)) :=
      RollData.find?_extend _ _ _
    cases records.target? with
    | none => exact hown
    | some t =>
      exact (RollData.find?_merge_of_head _ _ (by decide) (hhead "target" (by decide))).trans hown
  | target =>
    rw [RollData.find?_extend_of_head _ _ (by decide) (hhead "activity" (by decide)), laid,
      ← hflags (by decide)]
    cases records.target? with
    | none => rfl
    | some t => exact RollData.find?_merge _ _ _
  | activity =>
    rw [RollData.find?_extend, laid, ← hflags (by decide)]
    cases records.target? with
    | none => rfl
    | some t =>
      dsimp only
      rw [RollData.find?_merge_of_head _ _ (by decide) (hhead "target" (by decide))]

-- A document without members and one that has nothing but the path tell whether the data of the
-- actor show under it.
theorem lookUp_unaffected_iff (v : Visit) (actor : Entity) (records : Records) (o : Overlay)
    (key : String) :
    (∀ system : Json, system.Settled →
      Formula.lookUp (v.rollData { actor with system } records) (o.path key) =
        Formula.lookUp (v.rollData actor records) (o.path key)) ↔
      ((v.laid actor records o).find? (o.path key)).isSome := by
  have hlaid : ∀ system, v.laid { actor with system } records o = v.laid actor records o :=
    fun system => by cases o <;> rfl
  simp only [Formula.lookUp, find?_rollData_path, hlaid]
  cases hfound : (v.laid actor records o).find? (o.path key) with
  | some value => simp
  | none =>
    refine iff_of_false (fun h => ?_) (by simp)
    have hempty : (RollData.ofTree (.obj [])).find? (o.path key) = none := rfl
    have hbare := h (.obj []) ⟨List.Pairwise.nil, trivial⟩
    have hsingle := h (.obj [(o.path key, .int 1)]) ⟨List.pairwise_singleton _ _, trivial, trivial⟩
    have hboth := hsingle.trans hbare.symm
    rw [hempty, RollData.find?_ofTree_single Overlay.path_ne_empty] at hboth
    cases hboth

-- Under the base of an overlay the flat data of a step tell what the tree that is laid over tells,
-- and behind it the actor's own document. The document shows, and can change what formulas read,
-- just where the tree tells of nothing.
theorem rollData_overlaid (v : Visit) (actor : Entity) (records : Records) (o : Overlay)
    (key : String) :
    let found := (v.rollData actor records).find? (o.path key)
    let laid := (v.laid actor records o).find? (o.path key)
    let own := (RollData.ofTree actor.system).find? (o.path key)
    (v.Named actor o → laid = v.datum? actor records key o) ∧
    found = laid.or own ∧
    (found = laid ↔ laid.isSome ∨ own = none) ∧
    ((∀ system : Json, system.Settled →
      Formula.lookUp (v.rollData { actor with system } records) (o.path key) =
        Formula.lookUp (v.rollData actor records) (o.path key)) ↔ laid.isSome) := by
  intro found laid own
  have hfound : found = laid.or own := v.find?_rollData_path actor records o key
  refine ⟨find?_laid records, hfound, ?_, v.lookUp_unaffected_iff actor records o key⟩
  rw [hfound]
  cases laid with
  | none => simp
  | some value => simp

def squire : Entity where
  id := "squire"
  name := "Squire"
  system := .obj [("target", .obj [("hp", .int 9)])]

def casting : Visit where
  setting := { actor := "squire" }
  plan := { id := "spell", system := .obj [("tier", .int 2)] }
  op := { id := "cast", kind := .message "Begone" }

-- Nobody is bound, and the document of the squire tells of a target all the same. It cannot tell
-- what the tier of the spell is.
theorem rollData_overlaid_squire :
    casting.datum? squire {} "hp" .target = none ∧
    (casting.rollData squire {}).find? "target.hp" = some (.int 9) ∧
    (¬ ∀ system : Json, system.Settled →
      Formula.lookUp (casting.rollData { squire with system } {}) "target.hp" =
        Formula.lookUp (casting.rollData squire {}) "target.hp") ∧
    ∀ system : Json, system.Settled →
      Formula.lookUp (casting.rollData { squire with system } {}) "activity.tier" =
        Formula.lookUp (casting.rollData squire {}) "activity.tier" := by
  have hnone : casting.datum? squire {} "hp" .target = none := rfl
  have hnamed : casting.Named squire .activity := show Json.member? "" _ = none by decide
  have hown : (RollData.ofTree squire.system).find? "target.hp" = some (.int 9) := rfl
  obtain ⟨hdatum, hfound, -, hunaffected⟩ := rollData_overlaid casting squire {} .target "hp"
  obtain ⟨hdatum', -, -, hunaffected'⟩ := rollData_overlaid casting squire {} .activity "tier"
  rw [hdatum trivial, hnone] at hfound hunaffected
  rw [hdatum' hnamed] at hunaffected'
  refine ⟨hnone, hfound.trans hown, fun h => ?_, hunaffected'.2 (by decide +kernel)⟩
  simpa using hunaffected.1 h

end Visit

end Tabletop
