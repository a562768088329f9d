import Tabletop.Proofs.Step.Faults

-- An operation that does not accept an answer says so before it changes anything.
namespace Tabletop

-- The one failure that tells of an answer that is not accepted.
def Failure.IsRejection : Failure → Prop
  | .rejected .. => True
  | _ => False

-- Whether no entity is kept back with a failure that tells of an answer.
def Keeper.NeverRejects (keeper : Keeper) : Prop :=
  ∀ id failure, keeper.unreadable id = some failure ∨ keeper.locked id = some failure →
    ¬ failure.IsRejection

-- Whether every use of an item is that of a consumable, or has to be finished first.
def ItemRoutine.Ordinary (routine : ItemRoutine) : Prop :=
  ∀ keeper actor item world, routine keeper actor item world = consume keeper actor item world ∨
    (routine keeper actor item world).1 = .ok .pending

theorem ItemRoutine.ordinary_consume : consume.Ordinary := fun _ _ _ _ => .inl rfl

theorem Failure.IsWorldly.not_isRejection {failure : Failure} (h : failure.IsWorldly) :
    ¬ failure.IsRejection := by
  cases failure with
  | rejected => exact fun _ => h
  | _ => exact fun h => h

theorem Setting.Reports.not_isRejection {setting : Setting} {failure : Failure}
    (hkeeper : setting.keeper.NeverRejects) (hitems : setting.useItem.Ordinary)
    (h : setting.Reports failure) : ¬ failure.IsRejection := by
  cases h with
  | unreadable hfailure => exact hkeeper _ failure (.inl hfailure)
  | locked hfailure => exact hkeeper _ failure (.inr hfailure)
  | @unused actor item world _ hfailure =>
    rcases hitems setting.keeper actor item world with hconsume | hpending
    · rw [hconsume] at hfailure
      rcases ItemRoutine.consume_error hfailure with hlocked | hworldly
      · exact hkeeper _ failure (.inr hlocked)
      · exact hworldly.not_isRejection
    · rw [hpending] at hfailure
      cases hfailure

namespace Act

-- Whether an act rejects an answer only as long as it has changed nothing.
def RejectsFirst (a : Act α) : Prop :=
  ∀ s failure s', a.run s = (.error failure, s') → failure.IsRejection → s' = s

theorem Does.rejectsFirst {E : Effect} {a : Act α} (ha : a.Does E fun _ f => ¬ f.IsRejection) :
    RejectsFirst a := by
  intro s failure s' h hrejection
  exact absurd hrejection ((ha s).2 failure (by rw [h]))

theorem RejectsFirst.map {a : Act α} (ha : RejectsFirst a) (f : α → β) :
    RejectsFirst (a >>= fun x => pure (f x)) := by
  intro s failure s' h hrejection
  rw [run_bind] at h
  split at h
  · cases h
  · next hrun =>
    cases h
    exact ha s failure s' hrun hrejection

end Act

namespace Visit

open Act

variable {v : Visit}

theorem rejectsFirst_lift (outcome : Except Failure α) : RejectsFirst (lift outcome) := by
  intro s failure s' h _
  cases outcome with
  | ok a => cases h
  | error failure' =>
    cases h
    rfl

theorem failures_ordinary (hkeeper : v.setting.keeper.NeverRejects)
    (hitems : v.setting.useItem.Ordinary) : v.Failures fun f => ¬ f.IsRejection := by
  refine fails_of_reports (fun _ _ hworldly => hworldly.not_isRejection)
    (fun _ _ hreports => hreports.not_isRejection hkeeper hitems) ?_ ?_
  · intro s text failure _ hfailure
    obtain ⟨id, -, -, rfl⟩ := Placeholder.substitute_error hfailure
    exact fun h => h
  · intro sides dice failure _ _ hfailure _ hrejection
    have hkind := Formula.kind_evaluate hfailure
    cases failure with
    | rejected => cases hkind
    | _ => cases hrejection

theorem rejectsFirst_useRest (hv : v.Failures fun f => ¬ f.IsRejection) (answer : Answer) :
    RejectsFirst (v.useRest answer) := by
  unfold useRest
  split
  · exact (Does.get_bind fun s => does_useQueue v.changes_anything.toUses hv _ _ s).rejectsFirst
  · intro s failure s' h _
    cases h
    rfl

-- Operations that ask nothing never reject an answer. The others look at it first.
theorem rejectsFirst_accept (hv : v.Failures fun f => ¬ f.IsRejection) (answer : Answer) :
    RejectsFirst (v.accept answer) := by
  unfold accept
  split
  · exact (rejectsFirst_useRest hv answer).map _
  · exact (rejectsFirst_lift _).map _
  · exact rejectsFirst_lift _
  · exact rejectsFirst_lift _
  · exact (does_begin v.changes_anything hv).rejectsFirst.map _

end Visit

end Tabletop
