import Tabletop.Proofs.Formula.Placeholder
import Tabletop.Proofs.Step.Effects

-- The failures that come of the world and of placeholders.
namespace Tabletop

-- The failures that tell of the world as it is: of what is not there, or of what is not enough.
def Failure.IsWorldly : Failure → Prop
  | .precondition .. | .unknownEntity _ | .other _ => True
  | _ => False

theorem Failure.IsWorldly.kind_ne {failure : Failure} (h : failure.IsWorldly) :
    failure.kind ≠ .evaluation ∧ failure.kind ≠ .configuration := by
  cases failure with
  | precondition | unknownEntity | other => simp [kind]
  | _ => cases h

-- The failures that come from around the operations: from the keeping of the world, and from the use
-- of items.
inductive Setting.Reports (setting : Setting) : Failure → Prop where
  | unreadable {id : String} {failure : Failure} :
    setting.keeper.unreadable id = some failure → Reports setting failure
  | locked {id : String} {failure : Failure} :
    setting.keeper.locked id = some failure → Reports setting failure
  | unused {actor : Entity} {item : Item} {world : World} {failure : Failure} :
    (setting.useItem setting.keeper actor item world).1 = .error failure → Reports setting failure

theorem Entity.apply_error {e : Entity} {change : Change} {failure : Failure}
    (h : e.apply change = .error failure) : failure.IsWorldly := by
  cases change with
  | itemQuantity item quantity =>
    simp only [apply] at h
    split at h
    · cases h
    · cases h
      trivial
  | _ => cases h

theorem Entity.applyAll_error {e : Entity} {changes : List Change} {failure : Failure}
    (h : e.applyAll changes = .error failure) : failure.IsWorldly := by
  induction changes generalizing e with
  | nil => cases h
  | cons change changes ih =>
    rw [applyAll, List.foldlM_cons] at h
    cases happly : e.apply change with
    | error failure' =>
      rw [happly] at h
      cases h
      exact apply_error happly
    | ok next =>
      rw [happly] at h
      exact ih h

namespace World

variable {keeper : Keeper} {world : World} {id : String} {failure : Failure}

theorem read_error (h : world.read keeper id = .error failure) :
    keeper.unreadable id = some failure ∨ failure.IsWorldly := by
  unfold read at h
  split at h
  · next hunreadable =>
    cases h
    exact .inl hunreadable
  · split at h
    · cases h
    · cases h
      exact .inr trivial

theorem update_error {changes : List Change} (h : world.update keeper id changes = .error failure) :
    keeper.locked id = some failure ∨ failure.IsWorldly := by
  unfold update at h
  split at h
  · next hlocked =>
    cases h
    exact .inl hlocked
  · split at h
    · cases h
      exact .inr trivial
    · split at h
      · next happly =>
        cases h
        exact .inr (Entity.applyAll_error happly)
      · cases h

end World

theorem ItemRoutine.consume_error {keeper : Keeper} {actor : Entity} {item : Item} {world : World}
    {failure : Failure} (h : (consume keeper actor item world).1 = .error failure) :
    keeper.locked actor.id = some failure ∨ failure.IsWorldly := by
  rw [consume] at h
  split at h
  · cases h
  · split at h
    · cases h
      exact .inr trivial
    · split at h
      · cases h
      · next hupdate =>
        cases h
        exact World.update_error hupdate

-- A bound holds of all failures of an operation, if it holds of those that tell of the world, of those
-- that come from around the operation, and of those that come of its texts and of dice.
theorem Visit.fails_of_reports {v : Visit} {F : Stage → Failure → Prop}
    (hworldly : ∀ s failure, failure.IsWorldly → F s failure)
    (hreports : ∀ s failure, v.setting.Reports failure → F s failure)
    (hunresolved : ∀ (s : Stage) text failure, v.Reads text →
      Placeholder.substitute text v.op.id s.records.value? = .error failure → F s failure)
    (hmisrolls : ∀ (sides : Nat) dice failure, 0 < sides → sides ≤ v.setting.targets.length →
      ((Formula.evaluate ("1d" ++ toString sides) Dict.empty).run dice).1 = .error failure →
      ∀ s, F s failure) : v.Fails F where
  objects _ s := hworldly s _ trivial
  unresolved := hunresolved
  misrolls := hmisrolls
  unread _ _ failure h s :=
    (World.read_error h).elim (fun h => hreports s failure (.unreadable h)) (hworldly s failure)
  refused _ _ _ failure h s :=
    (World.update_error h).elim (fun h => hreports s failure (.locked h)) (hworldly s failure)
  unused _ _ _ failure h s := hreports s failure (.unused h)

end Tabletop
