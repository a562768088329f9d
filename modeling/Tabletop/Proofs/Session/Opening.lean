import Tabletop.Proofs.Records
import Tabletop.Proofs.Session.Suspension

-- Calls that fail before any operation is visited. A start drops what is left of the invocation
-- before it as soon as the activity is valid, and only then looks for the operation to start at.
namespace Tabletop.Session

-- Whether nothing is left of an earlier invocation.
structure Clean (s : Session) : Prop where
  pending : s.activity.pending = none
  charged : s.activity.charged = Dict.empty
  target : s.activity.records.Bound none

variable {s s' : Session} {setting : Setting} {origin : Option String} {id : String}
  {failure : Failure}

theorem clean_fresh (s : Session) : s.fresh.Clean := ⟨rfl, rfl, Records.bound_bind⟩

theorem Clean.fresh_eq (h : s.Clean) : s.fresh = s := by
  obtain ⟨⟨plan, records, ledger, pending, charged⟩, world, dice, events, issued⟩ := s
  obtain ⟨hpending, hcharged, htarget⟩ := h
  dsimp only at hpending hcharged htarget
  rw [fresh, hpending, hcharged, htarget.bind_eq]

theorem fresh_eq_iff : s.fresh = s ↔ s.Clean :=
  ⟨fun h => h ▸ clean_fresh s, Clean.fresh_eq⟩

theorem start_failed (h : s.start setting origin = (.error failure, s')) :
    (s.activity.errors ≠ [] ∧ s' = s) ∨ (s.activity.errors = [] ∧ s' = s.fresh) := by
  have hstarting := s.starting setting origin
  rw [h] at hstarting
  cases hstarting with
  | invalid herrors => exact .inl ⟨herrors, rfl⟩
  | unknown herrors => exact .inr ⟨herrors, rfl⟩

theorem continueFrom_failed (h : s.continueFrom setting id = (.error failure, s')) : s' = s := by
  have hcontinuing := s.continuing setting id
  rw [h] at hcontinuing
  cases hcontinuing with
  | unknown => rfl

-- A start that fails never touches the world, and leaves the session as it was exactly when the
-- activity has errors or nothing was left to drop. Going on from an unknown operation changes
-- nothing at all.
theorem opening_failed (s : Session) (setting : Setting) (origin : Option String) (id : String) :
    (∀ failure s', s.start setting origin = (.error failure, s') →
      s'.world = s.world ∧ (s' = s ∨ s' = s.fresh) ∧
      (s' = s ↔ s.activity.errors ≠ [] ∨ s.Clean)) ∧
    (∀ failure s', s.continueFrom setting id = (.error failure, s') → s' = s) := by
  refine ⟨fun failure s' h => ?_, fun failure s' h => continueFrom_failed h⟩
  obtain ⟨herrors, rfl⟩ | ⟨herrors, rfl⟩ := start_failed h
  · exact ⟨rfl, .inl rfl, by simp [herrors]⟩
  · refine ⟨rfl, .inr rfl, ?_⟩
    simp only [herrors, ne_eq, not_true_eq_false, false_or]
    exact fresh_eq_iff

theorem start_unknown (setting : Setting) (herrors : s.activity.errors = [])
    (h : s.activity.position? id = none) :
    s.start setting (some id) = (.error (unknownOperation id), s.fresh) := by
  simp [start, Activity.validate_of_errors_eq herrors, fresh, h]

-- Somebody who asked for the way and was not answered yet.
def lost : Session :=
  { crossroads with
    activity := { crossroads.activity with
      pending := some
        { token := "T1", operation := "way", position := 0
          prompt := ⟨"way: choose an operation", .select [⟨"left", "left"⟩, ⟨"right", "right"⟩]⟩
          target := none, forks := [], createdAt := .ofNanoseconds 0 } }
    issued := 1 }

-- Whoever mistypes a start loses the prompt.
theorem opening_failed_lost :
    lost.activity.errors = [] ∧ ∃ failure s',
      lost.start { actor := "hero" } (some "nowhere") = (.error failure, s') ∧
      s'.world = lost.world ∧ s' ≠ lost := by
  have herrors : lost.activity.errors = [] := by cbv
  have hunknown : lost.activity.position? "nowhere" = none := by
    rw [Plan.position?, List.findIdx?_eq_none_iff]
    simp [Plan.order, List.mem_mergeSort, lost, crossroads]
  have hstart := start_unknown { actor := "hero" } herrors hunknown
  obtain ⟨hworld, -, hsame⟩ :=
    (opening_failed lost { actor := "hero" } (some "nowhere") "nowhere").1 _ _ hstart
  refine ⟨herrors, _, _, hstart, hworld, fun heq => ?_⟩
  obtain hne | hclean := hsame.1 heq
  · exact hne herrors
  · simpa [lost] using hclean.pending

end Tabletop.Session
