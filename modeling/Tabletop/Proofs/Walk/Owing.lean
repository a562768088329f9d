import Tabletop.Proofs.Walk.Places

-- The branches that forks owe, and when a walk starts them.
namespace Tabletop

-- A continuation that a fork owes: the operation that forked, the position where it is to start,
-- and its target.
structure Branch where
  origin : String
  position : Nat
  target : Snapshot

def Fork.owes (fork : Fork) : List Branch :=
  fork.remaining.map fun target => ⟨fork.origin, fork.resumeAt, target⟩

-- Whether a branch starts right after the operation that forked.
def Plan.Behind (plan : Plan) (b : Branch) : Prop :=
  ∃ position op, plan.order[position]? = some op ∧ op.id = b.origin ∧ b.position = position + 1

namespace Cursor

-- All that the forks owe, in the order in which it starts.
def owed (c : Cursor) : List Branch := c.forks.flatMap Fork.owes

variable {c next : Cursor} {plan : Plan}

theorem flatMap_owes_of_nextBranch {forks : List Fork} (h : nextBranch forks = some next) :
    ∃ b, forks.flatMap Fork.owes = b :: next.owed ∧
      next.position = b.position ∧ next.target = some b.target := by
  induction forks with
  | nil => cases h
  | cons fork outer ih =>
    obtain ⟨origin, resumeAt, remaining, outerTarget⟩ := fork
    cases remaining with
    | nil => exact ih h
    | cons target remaining =>
      cases h
      exact ⟨⟨origin, resumeAt, target⟩, rfl, rfl, rfl⟩

theorem flatMap_owes_of_no_branch {forks : List Fork} (h : nextBranch forks = none) :
    forks.flatMap Fork.owes = [] := by
  induction forks with
  | nil => rfl
  | cons fork outer ih =>
    obtain ⟨origin, resumeAt, remaining, outerTarget⟩ := fork
    cases remaining with
    | nil => exact ih h
    | cons target remaining => cases h

-- A fork adds branches behind itself to what is owed.
theorem owed_forked {op : Operation} (hop : plan.order[c.position]? = some op) (size : Nat)
    (targets : List Snapshot) :
    ∃ fresh, (c.forked size op.id targets).owed = fresh ++ c.owed ∧
      ∀ b ∈ fresh, plan.Behind b := by
  unfold forked
  split
  · exact ⟨[], rfl, List.forall_mem_nil _⟩
  · refine ⟨Fork.owes ⟨op.id, c.position + 1, targets, c.target⟩, rfl, fun b hb => ?_⟩
    obtain ⟨target, -, rfl⟩ := List.mem_map.1 hb
    exact ⟨c.position, op, hop, rfl, rfl⟩

end Cursor

-- What is still owed after a turn.
def Turn.owed : Turn → List Branch
  | .goes c => c.owed
  | .ends => []
  | .waits c _ _ => c.owed

-- How some branches that start go with what was owed before and what is owed after. Those that were
-- owed start in order; all others start, or come to be owed, behind the operation that forked.
def Plan.Deals (plan : Plan) (before started after : List Branch) : Prop :=
  ∃ taken kept fresh, before = taken ++ kept ∧ after = fresh ++ kept ∧
    taken.Sublist started ∧ (∀ b ∈ started, b ∈ taken ∨ plan.Behind b) ∧
    ∀ b ∈ fresh, plan.Behind b

namespace Plan.Deals

variable {plan : Plan} {before started between started' after : List Branch}

theorem of_fresh {fresh : List Branch} (hfresh : ∀ b ∈ fresh, plan.Behind b) :
    plan.Deals before [] (fresh ++ before) :=
  ⟨[], before, fresh, rfl, rfl, List.Sublist.refl _, List.forall_mem_nil _, hfresh⟩

theorem refl (plan : Plan) (owed : List Branch) : plan.Deals owed [] owed :=
  of_fresh (List.forall_mem_nil _)

theorem trans (h : plan.Deals before started between) (h' : plan.Deals between started' after) :
    plan.Deals before (started ++ started') after := by
  obtain ⟨taken, kept, fresh, rfl, rfl, htaken, hstarted, hfresh⟩ := h
  obtain ⟨taken', kept', fresh', hbetween, rfl, htaken', hstarted', hfresh'⟩ := h'
  obtain ⟨more, rfl, rfl⟩ | ⟨left, rfl, rfl⟩ := List.append_eq_append_iff.1 hbetween
  · -- All that came to be owed on the way has started since, and more of what was owed before.
    refine ⟨taken ++ more, kept', fresh', (List.append_assoc ..).symm, rfl,
      htaken.append ((List.sublist_append_right _ _).trans htaken'), fun b hb => ?_, hfresh'⟩
    obtain hb | hb := List.mem_append.1 hb
    · exact (hstarted b hb).imp_left (List.mem_append_left _)
    · obtain hb | hbehind := hstarted' b hb
      · exact (List.mem_append.1 hb).elim (fun hb => .inr (hfresh b hb))
          fun hb => .inl (List.mem_append_right _ hb)
      · exact .inr hbehind
  · -- Some of what came to be owed on the way is still owed, and all of what was owed before that.
    refine ⟨taken, kept, fresh' ++ left, rfl, (List.append_assoc ..).symm,
      htaken.trans (List.sublist_append_left _ _), fun b hb => ?_, fun b hb => ?_⟩
    · obtain hb | hb := List.mem_append.1 hb
      · exact hstarted b hb
      · obtain hb | hbehind := hstarted' b hb
        · exact .inr (hfresh b (List.mem_append_left _ hb))
        · exact .inr hbehind
    · exact (List.mem_append.1 hb).elim (hfresh' b) fun hb =>
        hfresh b (List.mem_append_right _ hb)

-- All is in order if and only if what was owed before was.
theorem behind_iff (h : plan.Deals before started after) :
    (∀ b ∈ started ++ after, plan.Behind b) ↔ ∀ b ∈ before, plan.Behind b := by
  obtain ⟨taken, kept, fresh, rfl, rfl, htaken, hstarted, hfresh⟩ := h
  constructor
  · intro hbehind b hb
    obtain hb | hb := List.mem_append.1 hb
    · exact hbehind b (List.mem_append_left _ (htaken.subset hb))
    · exact hbehind b (List.mem_append_right _ (List.mem_append_right _ hb))
  · intro hbehind b hb
    obtain hb | hb := List.mem_append.1 hb
    · exact (hstarted b hb).elim (fun hb => hbehind b (List.mem_append_left _ hb))
        fun hb => hb
    · exact (List.mem_append.1 hb).elim (hfresh b) fun hb =>
        hbehind b (List.mem_append_right _ hb)

end Plan.Deals

-- A turn after a visit starts no branch.
theorem Cursor.deals_after {plan : Plan} {c : Cursor} {op : Operation}
    (hop : plan.order[c.position]? = some op) (size : Nat) (move : Move) :
    plan.Deals c.owed [] (c.after size op.id move).owed := by
  cases move with
  | onward | ended | waiting => exact .refl plan c.owed
  | forked targets =>
    obtain ⟨fresh, howed, hfresh⟩ := owed_forked hop size targets
    have hdeals : plan.Deals c.owed [] (fresh ++ c.owed) := .of_fresh hfresh
    rwa [← howed] at hdeals

-- The branch that starts after a place, which is then at the end of another one.
def Plan.branch? (plan : Plan) (place : Place) : Option Branch :=
  match plan.order[place.cursor.position]? with
  | some _ => none
  | none => place.cursor.owed.head?

-- The branches that start on the way along some places.
def Plan.branches (plan : Plan) (places : List Place) : List Branch :=
  places.filterMap plan.branch?

namespace Run

variable {setting : Setting} {plan : Plan} {c c' : Cursor} {run run' : Run} {b : Branch}

theorem deals_next (setting : Setting) (plan : Plan) (c : Cursor) (run : Run) :
    plan.Deals c.owed (plan.branch? ⟨c, run⟩).toList (run.next setting plan c).1.owed := by
  cases hop : plan.order[c.position]? with
  | some op =>
    rw [next_of_order hop]
    simpa only [Plan.branch?, hop, Option.toList_none] using Cursor.deals_after hop _ _
  | none =>
    rw [next_of_end hop, branch, Plan.branch?, hop]
    cases hbranch : Cursor.nextBranch c.forks with
    | some next =>
      obtain ⟨b, howed, -⟩ := Cursor.flatMap_owes_of_nextBranch hbranch
      have hstarts : c.owed = b :: next.owed := howed
      simp only [hstarts, List.head?_cons, Option.toList_some]
      exact ⟨[b], next.owed, [], rfl, rfl, List.Sublist.refl _, fun _ hb => .inl hb,
        List.forall_mem_nil _⟩
    | none =>
      have hnone : c.owed = [] := Cursor.flatMap_owes_of_no_branch hbranch
      simp only [hnone, List.head?_nil, Option.toList_none]
      split <;> exact .refl plan []

-- A walk starts what is owed in order, and is over only when nothing is owed any more.
theorem deals_walk (setting : Setting) (plan : Plan) (c : Cursor) (run : Run) :
    plan.Deals c.owed (plan.branches (run.places setting plan c))
      (((run.walk setting plan c).1.map fun w => w.cursor.owed).getD []) := by
  have hlast : ∀ place, plan.branches [place] = (plan.branch? place).toList := by
    intro place
    rw [Plan.branches, List.filterMap_cons]
    cases plan.branch? place <;> rfl
  induction c, run using walk_induction setting plan with
  | goes c run c' run' hturn ih =>
    have hnext := deals_next setting plan c run
    rw [hturn] at hnext
    have hplaces : plan.branches (run.places setting plan c) =
        (plan.branch? ⟨c, run⟩).toList ++ plan.branches (run'.places setting plan c') := by
      rw [places_of_goes hturn, ← hlast, Plan.branches, Plan.branches, Plan.branches,
        ← List.filterMap_append, List.singleton_append]
    rw [hplaces]
    exact hnext.trans ih
  | ends c run run' hturn =>
    have hnext := deals_next setting plan c run
    rw [hturn] at hnext
    rwa [places_of_ends hturn, hlast]
  | waits c run c' operation prompt run' hturn =>
    have hnext := deals_next setting plan c run
    rw [hturn] at hnext
    rwa [places_of_waits hturn, hlast]

theorem next_of_branch? (setting : Setting) (h : plan.branch? ⟨c, run⟩ = some b) :
    ∃ next, run.next setting plan c = (.goes next, run.bind next.target) ∧
      next.position = b.position ∧ next.target = some b.target := by
  rw [Plan.branch?] at h
  split at h
  · cases h
  · next hop =>
    cases hbranch : Cursor.nextBranch c.forks with
    | some next =>
      obtain ⟨b', howed, hposition, htarget⟩ := Cursor.flatMap_owes_of_nextBranch hbranch
      have hstarts : c.owed = b' :: next.owed := howed
      simp only [hstarts, List.head?_cons, Option.some.injEq] at h
      subst h
      exact ⟨next, by rw [next_of_end hop, branch, hbranch], hposition, htarget⟩
    | none =>
      have hnone : c.owed = [] := Cursor.flatMap_owes_of_no_branch hbranch
      simp [hnone] at h

theorem self_mem_places (setting : Setting) (plan : Plan) (c : Cursor) (run : Run) :
    ⟨c, run⟩ ∈ run.places setting plan c := by
  rcases hturn : run.next setting plan c with ⟨_ | _ | _, _⟩
  · simp [places_of_goes hturn]
  · simp [places_of_ends hturn]
  · simp [places_of_waits hturn]

-- A branch that starts has a place of its own in the walk: its position, with its target bound.
theorem place_of_branch (h : b ∈ plan.branches (run.places setting plan c)) :
    ∃ place ∈ run.places setting plan c,
      place.cursor.position = b.position ∧ place.cursor.target = some b.target := by
  induction c, run using walk_induction setting plan with
  | goes c run c' run' hturn ih =>
    rw [places_of_goes hturn] at h ⊢
    obtain ⟨place, hplace, hb⟩ := List.mem_filterMap.1 h
    obtain rfl | hplace := List.mem_cons.1 hplace
    · obtain ⟨next, hnext, hposition, htarget⟩ := next_of_branch? setting hb
      obtain ⟨rfl, rfl⟩ : next = c' ∧ run.bind next.target = run' := by
        simpa [hnext] using hturn
      exact ⟨_, List.mem_cons_of_mem _ (self_mem_places setting plan _ _), hposition, htarget⟩
    · obtain ⟨found, hfound, hat⟩ := ih (List.mem_filterMap.2 ⟨place, hplace, hb⟩)
      exact ⟨found, List.mem_cons_of_mem _ hfound, hat⟩
  | ends c run run' hturn =>
    obtain ⟨place, hplace, hb⟩ := List.mem_filterMap.1 h
    rw [places_of_ends hturn, List.mem_singleton] at hplace
    subst hplace
    obtain ⟨next, hnext, -⟩ := next_of_branch? setting hb
    simp [hnext] at hturn
  | waits c run c' operation prompt run' hturn =>
    obtain ⟨place, hplace, hb⟩ := List.mem_filterMap.1 h
    rw [places_of_waits hturn, List.mem_singleton] at hplace
    subst hplace
    obtain ⟨next, hnext, -⟩ := next_of_branch? setting hb
    simp [hnext] at hturn

end Run

end Tabletop
