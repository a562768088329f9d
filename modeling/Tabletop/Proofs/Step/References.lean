import Tabletop.Proofs.Step.Faults
import Tabletop.Validation

-- Where everything around an operation is in order, only a reference to a value that is not there
-- makes it fail for how it was authored, and its answers lead to operations.
namespace Tabletop

-- Whether nothing around the operations fails for how the activity was authored: the die of checks
-- has no references, and neither the keeping of the world nor the use of an item reports such a
-- failure.
structure Setting.Orderly (setting : Setting) : Prop where
  die : '#' ∉ setting.rules.checkDie.toList
  unreadable : ∀ id failure, setting.keeper.unreadable id = some failure →
    failure.kind ≠ .configuration
  locked : ∀ id failure, setting.keeper.locked id = some failure → failure.kind ≠ .configuration
  items : ∀ actor item world failure,
    (setting.useItem setting.keeper actor item world).1 = .error failure →
    failure.kind ≠ .configuration

theorem Setting.Orderly.kind_ne {setting : Setting} {failure : Failure} (h : setting.Orderly)
    (hreports : setting.Reports failure) : failure.kind ≠ .configuration := by
  cases hreports with
  | unreadable hfailure => exact h.unreadable _ _ hfailure
  | locked hfailure => exact h.locked _ _ hfailure
  | unused hfailure => exact h.items _ _ _ _ hfailure

namespace Visit

open Act

variable {v : Visit}

-- Whether a failure tells of a reference in a text of the operation to a value that the records have
-- not, or not in a form to be put in.
def Misses (v : Visit) (records : Records) (failure : Failure) : Prop :=
  ∃ id, failure = .unresolved v.op.id id ∧
    (∃ text ∈ v.op.formulas, id ∈ Placeholder.ids text) ∧
    Placeholder.resolve? records.value? id = none

theorem mem_of_option? {options : List OptionEntry} {choice : String} {entry : OptionEntry}
    (h : option? options choice = some entry) : entry ∈ options := by
  unfold option? at h
  cases hindex : (Text.toNatUpTo? (Bits.greatest 64) choice).bind fun i => options[i]? with
  | none =>
    rw [hindex] at h
    exact List.mem_of_find?_eq_some h
  | some found =>
    rw [hindex] at h
    cases h
    obtain ⟨i, -, hi⟩ := Option.bind_eq_some_iff.1 hindex
    exact List.mem_of_getElem? hi

theorem mem_offered_of_acceptOption {options : List OptionEntry} {title : Option String}
    {answer : Answer} {outcome : Outcome} {id : String}
    (h : v.acceptOption options answer = .ok (outcome, some id)) :
    id ∈ Validation.offered (.selectOption options title) := by
  simp only [acceptOption] at h
  split at h
  · cases h
  · split at h
    · split at h
      · next entry hentry =>
        obtain ⟨-, hleads⟩ := Prod.ext_iff.1 (Except.ok.inj h)
        exact List.mem_filterMap.2 ⟨entry, mem_of_option? hentry, hleads⟩
      · cases h
    · cases h

theorem eq_none_of_run {a : Act Outcome} {outcome : Outcome} {destination : Option String}
    {s s' : Stage} (h : (do return (← a, none)).run s = (.ok (outcome, destination), s')) :
    destination = none := by
  rw [run_bind] at h
  split at h
  · cases h
    rfl
  · cases h

theorem eq_of_run_lift {result : Except Failure α} {a : α} {s s' : Stage}
    (h : (lift result).run s = (.ok a, s')) : result = .ok a := by
  cases result with
  | ok b =>
    cases h
    rfl
  | error failure => cases h

end Visit

end Tabletop
