import Tabletop.Proofs.Walk.Binding

-- What is known of an activity in which no errors were found: its ids are names and all different,
-- and everything that it refers to is there.
namespace Tabletop

namespace Validation

variable {seen : List String} {ops : List Operation} {plan : Plan} {id : String}

theorem idFault?_eq_none (h : idFault? seen id = none) :
    Placeholder.isName id = true ∧ id ∉ seen := by
  unfold idFault? at h
  split at h
  · cases h
  · split at h
    · cases h
    · next hname =>
      split at h
      · cases h
      · split at h
        · cases h
        · next hseen => exact ⟨by simpa using hname, by simpa using hseen⟩

theorem ids_of_uniqueIdsFrom (h : ∀ d ∈ uniqueIdsFrom seen ops, d.severity ≠ .error) :
    (∀ op ∈ ops, Placeholder.isName op.id = true ∧ op.id ∉ seen) ∧
      (ops.map Operation.id).Nodup := by
  induction ops generalizing seen with
  | nil => simp
  | cons op ops ih =>
    rw [uniqueIdsFrom] at h
    split at h
    · exact absurd rfl (h _ List.mem_cons_self)
    · next hnone =>
      obtain ⟨hrest, hnodup⟩ := ih h
      have hfresh : op.id ∉ ops.map Operation.id := by
        intro hmem
        obtain ⟨op', hop', heq⟩ := List.mem_map.1 hmem
        exact (hrest op' hop').2 (heq ▸ List.mem_cons_self)
      refine ⟨?_, by simpa using ⟨by simpa using hfresh, hnodup⟩⟩
      rw [List.forall_mem_cons]
      refine ⟨idFault?_eq_none hnone, fun op' hop' => ⟨(hrest op' hop').1, ?_⟩⟩
      exact fun hseen => (hrest op' hop').2 (List.mem_cons_of_mem _ hseen)

-- Only ids of operations have a place.
theorem exists_of_place? (h : (place? plan id).isSome = true) :
    ∃ op ∈ plan.operations, op.id = id := by
  rw [place?, List.lookup_isSome_iff] at h
  obtain ⟨pair, hpair, heq⟩ := h
  rw [List.mem_reverse, List.mem_mapIdx] at hpair
  obtain ⟨i, hi, rfl⟩ := hpair
  exact ⟨plan.order[i], List.mem_mergeSort.1 (List.getElem_mem hi), (beq_iff_eq.1 heq).symm⟩

end Validation

-- Whether no two operations have one id, and none has the key of the bound target for it.
structure Plan.Apart (plan : Plan) : Prop where
  ids : (plan.operations.map Operation.id).Nodup
  target : ∀ op ∈ plan.operations, op.id ≠ Records.targetKey

namespace Activity

variable {a : Activity} {op : Operation} {id : String}

theorem ids_of_errors_eq (h : a.errors = []) :
    (∀ op ∈ a.operations, Placeholder.isName op.id = true) ∧
      (a.operations.map Operation.id).Nodup := by
  have hids : ∀ d ∈ Validation.uniqueIds a, d.severity ≠ .error := fun d hd =>
    severity_ne_error h d (by simp [diagnostics, hd])
  obtain ⟨hnames, hnodup⟩ := Validation.ids_of_uniqueIdsFrom hids
  exact ⟨fun op hop => (hnames op hop).1, hnodup⟩

theorem apart_of_errors_eq (h : a.errors = []) : a.toPlan.Apart :=
  ⟨(ids_of_errors_eq h).2, id_ne_target h⟩

-- Every choice that a selection offers names an operation.
theorem offered_of_errors_eq (h : a.errors = []) (hop : op ∈ a.operations)
    (hid : id ∈ Validation.offered op.kind) : ∃ other ∈ a.operations, other.id = id := by
  have hsound : ∀ d ∈ Validation.selectRefs a, d.severity ≠ .error := fun d hd =>
    severity_ne_error h d (by simp [diagnostics, hd])
  by_cases hplace : (Validation.place? a.toPlan id).isSome = true
  · exact Validation.exists_of_place? hplace
  · by_cases hself : id = op.id
    · exact ⟨op, hop, hself.symm⟩
    · have hmem : Validation.finding "select_refs" .error op
          (Validation.quoted op.label ++ " offers unknown operation " ++ Validation.quoted id) ∈
          Validation.selectRefs a := by
        rw [Validation.selectRefs, List.mem_flatMap]
        refine ⟨op, hop, List.mem_filterMap.2 ⟨id, hid, ?_⟩⟩
        rw [if_neg hself, if_pos (by simpa using hplace)]
      exact absurd rfl (hsound _ hmem)

-- What the other rules find is no error.
theorem errors_eq_nil (hids : Validation.uniqueIds a = [])
    (hreferences : Validation.placeholderRefs a = []) (hselections : Validation.selectRefs a = [])
    (hresources : Validation.resourceRefs a = []) : a.errors = [] := by
  have hforward : ∀ d ∈ Validation.forwardPlaceholder a, d.severity ≠ .error := by
    intro d hd
    simp only [Validation.forwardPlaceholder, Validation.perReference, List.mem_flatMap,
      List.mem_filterMap] at hd
    obtain ⟨op, -, text, -, id, -, hd⟩ := hd
    split at hd
    · split at hd <;> cases hd
      simp [Validation.finding]
    · cases hd
  have hfork : ∀ d ∈ Validation.danglingFork a, d.severity ≠ .error := by
    intro d hd
    unfold Validation.danglingFork at hd
    split at hd
    · cases hd
    · split at hd <;> simp_all [Validation.finding]
  have hdamages : ∀ d ∈ Validation.emptyDamages a, d.severity ≠ .error := by
    intro d hd
    obtain ⟨op, -, hd⟩ := List.mem_filterMap.1 hd
    split at hd <;> cases hd
    simp [Validation.finding]
  rw [errors, List.filterMap_eq_nil_iff]
  intro d hd
  simp only [diagnostics, hids, hreferences, hselections, hresources, List.nil_append,
    List.append_nil, List.mem_append] at hd
  rcases hd with (hd | hd) | hd
  · exact if_neg (hforward d hd)
  · exact if_neg (hfork d hd)
  · exact if_neg (hdamages d hd)

end Activity

end Tabletop
