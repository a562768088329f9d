import Tabletop.Proofs.Formula.Substitution
import Tabletop.Proofs.Step.Predicates
import Tabletop.Proofs.Walk.Mirror

-- What a condition comes to. All predicates are judged, and none of them does anything, so that the
-- order in which they are judged only shows in the results and in the reason that is told.
namespace Tabletop

/-! Lists in the order of their priorities -/

namespace Predicate

variable {conditions others ordered : List Predicate} {p : Predicate}

-- Whether a list has these predicates by ascending priority, and those of one priority in the order
-- in which they came.
structure Ranked (conditions ordered : List Predicate) : Prop where
  perm : ordered.Perm conditions
  ascending : ordered.Pairwise fun p q => p.priority ≤ q.priority
  stable : ∀ priority, ordered.filter (fun p => p.priority = priority) =
    conditions.filter fun p => p.priority = priority

theorem ranked_mergeSort (conditions : List Predicate) :
    Ranked conditions (conditions.mergeSort fun a b => a.priority ≤ b.priority) := by
  have htrans : ∀ a b c : Predicate, decide (a.priority ≤ b.priority) = true →
      decide (b.priority ≤ c.priority) = true → decide (a.priority ≤ c.priority) = true := by
    simp only [decide_eq_true_eq]
    exact fun a b c => Int.le_trans
  have htotal : ∀ a b : Predicate,
      (decide (a.priority ≤ b.priority) || decide (b.priority ≤ a.priority)) = true := by
    simp only [Bool.or_eq_true, decide_eq_true_eq]
    exact fun a b => Int.le_total _ _
  have hperm := conditions.mergeSort_perm fun a b => a.priority ≤ b.priority
  refine ⟨hperm, ?_, fun priority => ?_⟩
  · simpa using List.pairwise_mergeSort htrans htotal conditions
  · -- Those of one priority are in order already, so that sorting keeps them as they are.
    have hsame : (conditions.filter fun p => p.priority = priority).Pairwise
        fun p q => decide (p.priority ≤ q.priority) = true := by
      refine List.pairwise_of_forall_mem_list fun p hp q hq => ?_
      simp only [List.mem_filter, decide_eq_true_eq] at hp hq ⊢
      omega
    have hkept := List.sublist_mergeSort htrans htotal hsame List.filter_sublist
    have hfiltered := hkept.filter fun p => p.priority = priority
    rw [List.filter_filter] at hfiltered
    simp only [Bool.and_self] at hfiltered
    exact (hfiltered.eq_of_length (hperm.filter _).length_eq.symm).symm

-- A predicate but for its priority.
def unranked (p : Predicate) : Predicate := { p with priority := 0 }

-- What does not depend on priorities holds of all predicates in any order, with any priorities.
theorem forall_congr_unranked {P : Predicate → Prop} (hP : ∀ p, P p.unranked ↔ P p)
    (h : (others.map unranked).Perm (conditions.map unranked)) :
    (∀ p ∈ others, P p) ↔ ∀ p ∈ conditions, P p := by
  have hall : ∀ ps : List Predicate, (∀ p ∈ ps, P p) ↔ ∀ p ∈ ps.map unranked, P p := by
    intro ps
    simp only [List.forall_mem_map, hP]
  rw [hall others, hall conditions]
  simp only [h.mem_iff]

end Predicate

namespace Visit

open Act Predicate

variable {v : Visit} {s : Stage} {actor : Entity} {conditions others : List Predicate}
  {proceedAnyway : Bool} {p : Predicate}

-- Acts that leave the stage alone leave it alone one after another.
theorem run_mapM_of_still {f : α → Act β} {r : α → Except Failure β} {xs : List α}
    (h : ∀ x ∈ xs, (f x).run s = (r x, s)) : (xs.mapM f).run s = (xs.mapM r, s) := by
  induction xs with
  | nil => rfl
  | cons x xs ih =>
    rw [List.forall_mem_cons] at h
    rw [List.mapM_cons, List.mapM_cons, run_bind, h.1]
    cases r x with
    | error failure => rfl
    | ok y =>
      dsimp only
      rw [run_bind, ih h.2]
      cases xs.mapM r <;> rfl

/-! A single predicate -/

-- Whether all placeholders of the literal of a predicate resolve.
def Readable (records : Records) (p : Predicate) : Prop :=
  ∀ id ∈ Placeholder.ids p.value, Placeholder.Resolves records.value? id

-- Whether the value that a predicate looks at passes against what its literal stands for.
def passes (v : Visit) (actor : Entity) (records : Records) (p : Predicate) : Bool :=
  match Placeholder.substitute p.value v.op.id records.value? with
  | .ok literal => (v.actual p actor (v.rollData actor records) records).compareBy p.comparison
      (Json.ofLiteral literal)
  | .error _ => false

-- The verdict on a predicate, which can only fail for its literal.
def verdict (v : Visit) (actor : Entity) (records : Records) (p : Predicate) :
    Except Failure (Predicate × Bool) :=
  (Placeholder.substitute p.value v.op.id records.value?).map fun _ => (p, v.passes actor records p)

theorem run_judge (v : Visit) (actor : Entity) (p : Predicate) (s : Stage) :
    (v.judge actor (v.rollData actor s.records) p).run s = (v.verdict actor s.records p, s) := by
  rw [judge, run_get_bind, substitute, run_bind, run_get_bind, verdict, passes]
  cases Placeholder.substitute p.value v.op.id s.records.value? <;> rfl

theorem verdict_of_readable (h : Readable s.records p) :
    v.verdict actor s.records p = .ok (p, v.passes actor s.records p) := by
  obtain ⟨literal, hliteral⟩ := Placeholder.substitute_eq_ok_iff.2 h
  rw [verdict, hliteral]
  rfl

theorem readable_of_verdict {judged : Predicate × Bool}
    (h : v.verdict actor s.records p = .ok judged) : Readable s.records p := by
  have hliteral : ∃ literal,
      Placeholder.substitute p.value v.op.id s.records.value? = .ok literal := by
    rw [verdict] at h
    cases hliteral : Placeholder.substitute p.value v.op.id s.records.value? with
    | ok literal => exact ⟨literal, rfl⟩
    | error failure =>
      rw [hliteral] at h
      cases h
  exact Placeholder.substitute_eq_ok_iff.1 hliteral

theorem verdict_eq_error {failure : Failure} (h : v.verdict actor s.records p = .error failure) :
    ∃ id ∈ Placeholder.ids p.value, ¬ Placeholder.Resolves s.records.value? id ∧
      failure = .unresolved v.op.id id := by
  have hliteral : Placeholder.substitute p.value v.op.id s.records.value? = .error failure := by
    rw [verdict] at h
    cases hliteral : Placeholder.substitute p.value v.op.id s.records.value? with
    | ok literal =>
      rw [hliteral] at h
      cases h
    | error other =>
      rw [hliteral] at h
      cases h
      rfl
  obtain ⟨id, hid, hnone, hfailure⟩ := Placeholder.substitute_error hliteral
  exact ⟨id, hid, Placeholder.isNone_resolve?.1 (Option.isNone_iff_eq_none.2 hnone), hfailure⟩

/-! All predicates -/

theorem run_condition (hactor : s.world.read v.setting.keeper v.setting.actor = .ok actor)
    (conditions : List Predicate) (proceedAnyway : Bool) :
    (v.condition conditions proceedAnyway).run s =
      match (conditions.mergeSort fun a b => a.priority ≤ b.priority).mapM
        (v.verdict actor s.records) with
      | .error failure => (.error failure, s)
      | .ok verdicts =>
        let fields := [("results", Json.arr (verdicts.map fun (p, passed) => verdictJson p passed))]
        match verdicts.find? fun (_, passed) => !passed with
        | none => (.ok (.success "all conditions met" (some (.bool true)) fields), s)
        | some (p, _) =>
          (.ok (if proceedAnyway then
              .success "conditions not met, proceeding anyway" (some (.bool false)) fields
            else
              { result := .halted ("condition not met: " ++ p.describe)
                value := some (.bool false), fields }), s) := by
  have hread : v.actor.run s = (.ok actor, s) := by
    rw [Visit.actor, run_get_bind, hactor]
    rfl
  rw [condition, run_bind, hread]
  dsimp only
  rw [run_get_bind, run_bind, run_mapM_of_still fun p _ => v.run_judge actor p s]
  generalize (conditions.mergeSort fun a b => a.priority ≤ b.priority).mapM
    (v.verdict actor s.records) = judged
  cases judged with
  | error failure => rfl
  | ok verdicts =>
    dsimp only
    generalize verdicts.find? _ = first
    cases first with
    | none => rfl
    | some failed => cases proceedAnyway <;> rfl

-- What a condition leaves whose predicates are all judged: it succeeds where all of them pass or
-- where that does not matter, and halts at the first that fails by ascending priority.
structure Judges (v : Visit) (actor : Entity) (records : Records) (conditions : List Predicate)
    (proceedAnyway : Bool) (ordered : List Predicate) (outcome : Outcome) : Prop where
  ranked : Ranked conditions ordered
  succeeds : outcome.result = .success ↔
    (∀ p ∈ conditions, v.passes actor records p = true) ∨ proceedAnyway = true
  halts : outcome.result ≠ .success → ∃ before p after, ordered = before ++ p :: after ∧
    (∀ q ∈ before, v.passes actor records q = true) ∧ v.passes actor records p = false ∧
    outcome.result = .halted ("condition not met: " ++ p.describe)
  value : outcome.value = some (.bool (decide (∀ p ∈ conditions, v.passes actor records p = true)))
  results : outcome.fields =
    [("results", .arr (ordered.map fun p => verdictJson p (v.passes actor records p)))]

theorem judges_of_readable (hactor : s.world.read v.setting.keeper v.setting.actor = .ok actor)
    (h : ∀ p ∈ conditions, Readable s.records p) (proceedAnyway : Bool) :
    ∃ ordered outcome, (v.condition conditions proceedAnyway).run s = (.ok outcome, s) ∧
      v.Judges actor s.records conditions proceedAnyway ordered outcome := by
  have hranked := ranked_mergeSort conditions
  generalize hordered : (conditions.mergeSort fun a b => a.priority ≤ b.priority) = ordered
    at hranked
  have hverdicts : ordered.mapM (v.verdict actor s.records) =
      .ok (ordered.map fun p => (p, v.passes actor s.records p)) :=
    Placeholder.mapM_eq_ok fun p hp => verdict_of_readable (h p (hranked.perm.mem_iff.1 hp))
  have hrun := run_condition hactor conditions proceedAnyway
  rw [hordered, hverdicts] at hrun
  dsimp only at hrun
  rw [List.find?_map, List.map_map] at hrun
  cases hfirst : ordered.find? ((fun x => !x.2) ∘ fun p => (p, v.passes actor s.records p)) with
  | none =>
    have hall : ∀ p ∈ conditions, v.passes actor s.records p = true := fun p hp => by
      simpa using List.find?_eq_none.1 hfirst p (hranked.perm.mem_iff.2 hp)
    rw [hfirst] at hrun
    refine ⟨ordered, _, hrun, ?_⟩
    exact {
      ranked := hranked
      succeeds := iff_of_true rfl (.inl hall)
      halts := fun hhalted => absurd rfl hhalted
      value := by rw [decide_eq_true hall]; rfl
      results := rfl }
  | some p =>
    obtain ⟨hp, before, after, hsplit, hbefore⟩ := List.find?_eq_some_iff_append.1 hfirst
    have hfails : v.passes actor s.records p = false := by simpa using hp
    have hnot : ¬ ∀ q ∈ conditions, v.passes actor s.records q = true := fun hall => by
      have hmem : p ∈ ordered := by simp [hsplit]
      simp [hall p (hranked.perm.mem_iff.1 hmem)] at hfails
    rw [hfirst] at hrun
    refine ⟨ordered, _, hrun, ?_⟩
    cases proceedAnyway with
    | true => exact {
        ranked := hranked
        succeeds := iff_of_true rfl (.inr rfl)
        halts := fun hhalted => absurd rfl hhalted
        value := by rw [decide_eq_false hnot]; rfl
        results := rfl }
    | false => exact {
        ranked := hranked
        succeeds := iff_of_false nofun (by simpa using hnot)
        halts := fun _ =>
          ⟨before, p, after, hsplit, fun q hq => by simpa using hbefore q hq, hfails, rfl⟩
        value := by rw [decide_eq_false hnot]; rfl
        results := rfl }

namespace Judges

variable {records : Records} {ordered : List Predicate} {outcome other : Outcome}

-- The value that goes on record says whether all predicates passed.
theorem value?_record (h : v.Judges actor records conditions proceedAnyway ordered outcome) :
    (v.record outcome records).value? v.op.id =
      some (.bool (decide (∀ p ∈ conditions, v.passes actor records p = true))) := by
  have hfields : ∀ f ∈ outcome.fields, f.1 ≠ "value" := by
    rw [h.results, List.forall_mem_singleton]
    simp
  rw [Visit.value?_record h.value hfields, if_pos rfl]
  rfl

theorem status (h : v.Judges actor records conditions proceedAnyway ordered outcome) :
    outcome.result.status =
      if (∀ p ∈ conditions, v.passes actor records p = true) ∨ proceedAnyway = true then .success
      else .halted := by
  split
  · next hpass => rw [h.succeeds.2 hpass, Result.status]
  · next hfail =>
    obtain ⟨_, _, _, _, _, _, hhalted⟩ := h.halts (mt h.succeeds.1 hfail)
    rw [hhalted, Result.status]

-- Neither the order of the predicates nor their priorities matter for how they come out.
theorem of_perm {reordered : List Predicate}
    (h : v.Judges actor records conditions proceedAnyway ordered outcome)
    (h' : v.Judges actor records others proceedAnyway reordered other)
    (hperm : (others.map unranked).Perm (conditions.map unranked)) :
    other.result.status = outcome.result.status ∧ other.value = outcome.value := by
  have hall := forall_congr_unranked (P := fun p => v.passes actor records p = true)
    (fun _ => Iff.rfl) hperm
  rw [h'.status, h.status, h'.value, h.value]
  simp only [hall, and_self]

end Judges

-- A predicate that cannot be read fails them all.
theorem run_condition_of_not_readable
    (hactor : s.world.read v.setting.keeper v.setting.actor = .ok actor)
    (h : ¬ ∀ p ∈ conditions, Readable s.records p) (proceedAnyway : Bool) :
    ∃ p ∈ conditions, ∃ id ∈ Placeholder.ids p.value,
      ¬ Placeholder.Resolves s.records.value? id ∧
        (v.condition conditions proceedAnyway).run s = (.error (.unresolved v.op.id id), s) := by
  have hperm := conditions.mergeSort_perm fun a b => a.priority ≤ b.priority
  have hrun := run_condition hactor conditions proceedAnyway
  cases hverdicts : (conditions.mergeSort fun a b => a.priority ≤ b.priority).mapM
      (v.verdict actor s.records) with
  | error failure =>
    obtain ⟨p, hp, hverdict⟩ := exists_of_mapM_error hverdicts
    obtain ⟨id, hid, hresolves, rfl⟩ := verdict_eq_error hverdict
    rw [hverdicts] at hrun
    exact ⟨p, hperm.mem_iff.1 hp, id, hid, hresolves, hrun⟩
  | ok verdicts =>
    refine absurd (fun p hp => ?_) h
    have hjudged : List.Forall₂ (fun judged p => v.verdict actor s.records p = .ok judged)
        verdicts _ := (forall₂_of_mapM_ok hverdicts).flip
    obtain ⟨judged, -, hread⟩ := exists_of_forall₂ hjudged p (hperm.mem_iff.2 hp)
    exact readable_of_verdict hread

-- The verdict on a list of predicates: where all of them can be read, it is that of the predicates
-- as they come by ascending priority, and the same for any other order and other priorities of
-- theirs; where one cannot be read, the operation fails for it.
theorem condition_verdict (hactor : s.world.read v.setting.keeper v.setting.actor = .ok actor)
    (conditions : List Predicate) (proceedAnyway : Bool) :
    ((∀ p ∈ conditions, Readable s.records p) →
      ∃ ordered outcome, (v.condition conditions proceedAnyway).run s = (.ok outcome, s) ∧
        v.Judges actor s.records conditions proceedAnyway ordered outcome ∧
        (v.record outcome s.records).value? v.op.id =
          some (.bool (decide (∀ p ∈ conditions, v.passes actor s.records p = true))) ∧
        ∀ others : List Predicate, (others.map unranked).Perm (conditions.map unranked) →
          ∃ other, (v.condition others proceedAnyway).run s = (.ok other, s) ∧
            other.result.status = outcome.result.status ∧ other.value = outcome.value) ∧
    ((∃ p ∈ conditions, ¬ Readable s.records p) →
      ∃ p ∈ conditions, ∃ id ∈ Placeholder.ids p.value,
        ¬ Placeholder.Resolves s.records.value? id ∧
          (v.condition conditions proceedAnyway).run s = (.error (.unresolved v.op.id id), s)) := by
  refine ⟨fun hreadable => ?_, fun ⟨p, hp, hunreadable⟩ => ?_⟩
  · obtain ⟨ordered, outcome, hrun, hjudges⟩ := judges_of_readable hactor hreadable proceedAnyway
    refine ⟨ordered, outcome, hrun, hjudges, hjudges.value?_record, fun others hothers => ?_⟩
    have hothersReadable : ∀ p ∈ others, Readable s.records p :=
      (forall_congr_unranked (fun _ => Iff.rfl) hothers).2 hreadable
    obtain ⟨_, other, hother, hjudges'⟩ := judges_of_readable hactor hothersReadable proceedAnyway
    exact ⟨other, hother, hjudges.of_perm hjudges' hothers⟩
  · exact run_condition_of_not_readable hactor (fun h => hunreadable (h p hp)) proceedAnyway

-- The seer stands before the gate with the luck that was drawn.
def before (j : Json) : Stage := { drawn j with world := World.ofList [seer] }

-- The predicate of the lower priority is the second one, and it fails.
theorem condition_verdict_seven :
    (before (.int 7)).world.read gate.setting.keeper gate.setting.actor = .ok seer ∧
      (∃ outcome, (gate.condition [⟨.operation, "luck", .equal, "#luck", 2⟩,
          ⟨.operation, "luck", .less, "3", 1⟩] false).run (before (.int 7)) =
            (.ok outcome, before (.int 7)) ∧
          outcome.result = .halted "condition not met: luck < 3" ∧
          outcome.value = some (.bool false)) ∧
      (gate.condition [⟨.operation, "luck", .equal, "#luck", 2⟩,
          ⟨.operation, "luck", .less, "#fate", 1⟩] false).run (before (.int 7)) =
            (.error (.unresolved "gate" "fate"), before (.int 7)) := by
  have hactor : (before (.int 7)).world.read gate.setting.keeper gate.setting.actor = .ok seer :=
    rfl
  have hluck : Placeholder.Resolves (before (.int 7)).records.value? "luck" :=
    ⟨by decide, _, rfl, trivial⟩
  have hfate : ¬ Placeholder.Resolves (before (.int 7)).records.value? "fate" :=
    Placeholder.isNone_resolve?.1 (by decide +kernel)
  have hids : Placeholder.ids "#luck" = ["luck"] ∧ Placeholder.ids "3" = [] ∧
      Placeholder.ids "#fate" = ["fate"] := by decide +kernel
  have hequal : gate.passes seer (before (.int 7)).records
      ⟨.operation, "luck", .equal, "#luck", 2⟩ = true := by decide +kernel
  have hless : gate.passes seer (before (.int 7)).records
      ⟨.operation, "luck", .less, "3", 1⟩ = false := by decide +kernel
  refine ⟨hactor, ?_, ?_⟩
  · obtain ⟨ordered, outcome, hrun, hjudges, -⟩ := (condition_verdict hactor
      [⟨.operation, "luck", .equal, "#luck", 2⟩, ⟨.operation, "luck", .less, "3", 1⟩] false).1
        (by simp [Readable, hids, hluck])
    refine ⟨outcome, hrun, ?_, ?_⟩
    · obtain ⟨before, p, after, hsplit, -, hfails, hresult⟩ :=
        hjudges.halts (mt hjudges.succeeds.1 (by simp [hless]))
      have hmem := hjudges.ranked.perm.mem_iff (a := p)
      simp only [hsplit, List.mem_append, List.mem_cons, List.not_mem_nil, or_false, true_or,
        or_true, true_iff] at hmem
      rcases hmem with rfl | rfl
      · simp [hequal] at hfails
      · exact hresult
    · rw [hjudges.value]
      simp [hless]
  · obtain ⟨p, hp, id, hid, hresolves, hrun⟩ := (condition_verdict hactor
      [⟨.operation, "luck", .equal, "#luck", 2⟩, ⟨.operation, "luck", .less, "#fate", 1⟩] false).2
        (by simp [Readable, hids, hfate])
    simp only [List.mem_cons, List.not_mem_nil, or_false] at hp
    rcases hp with rfl | rfl
    · rw [hids.1, List.mem_singleton] at hid
      exact absurd (hid ▸ hluck) hresolves
    · rw [hids.2.2, List.mem_singleton] at hid
      exact hid ▸ hrun

end Visit

end Tabletop
