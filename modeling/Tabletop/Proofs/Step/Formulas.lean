import Tabletop.Proofs.Formula.Completeness
import Tabletop.Proofs.Formula.Evaluation
import Tabletop.Proofs.Formula.Literals
import Tabletop.Proofs.Step.Faults

-- What becomes of formulas that cannot be evaluated: each of them counts as zero where it stands, and
-- no operation fails for one.
namespace Tabletop

namespace Formula

open Tabletop.Text

-- One die with any number of faces that a formula may have.
theorem written_die {n : Nat} (hpos : 0 < n) (hfew : n ≤ maxFaces) :
    Written ("1d" ++ toString n) (.dice ⟨1, n, none⟩) := by
  have hvalue : ofDigits (Nat.toDigits 10 n) = n := ofDigits_toDigits n
  have hcount : IsCount ['1'] 1 := .given (w := ['1']) (by decide) (by decide)
  have hthrow : IsThrow ('1' :: 'd' :: (Nat.toDigits 10 n ++ [])) ⟨1, n, none⟩ := by
    have hthrow := IsThrow.intro hcount (.inl rfl) (digits_toDigits n) (by omega) (by omega) .all
    rwa [hvalue] at hthrow
  have htext : ("1d" ++ toString n).toList = ('1' :: 'd' :: (Nat.toDigits 10 n ++ [])) ++ [] := by
    rw [String.toList_append, Nat.toString_eq_repr, Nat.toList_repr]
    simp
  exact ⟨_, [], htext, by simp, (Derives.dice (g := []) gap_nil hthrow).bare.of_sign.of_term⟩

-- Such a die can always be rolled.
theorem evaluate_die {n : Nat} (hpos : 0 < n) (hfew : n ≤ maxFaces) (data : RollData) (dice : Dice)
    (failure : Failure) :
    ((evaluate ("1d" ++ toString n) data).run dice).1 ≠ .error failure := by
  rw [run_evaluate (written_die hpos hfew).parse, eval]
  rintro ⟨⟩

end Formula

-- Items that are used up on use report nothing about formulas which the keeping of the world does not
-- report.
theorem Setting.kind_of_reports {setting : Setting} {failure : Failure}
    (hitems : setting.useItem = ItemRoutine.consume)
    (hunreadable : ∀ id failure, setting.keeper.unreadable id = some failure →
      failure.kind ≠ .evaluation)
    (hlocked : ∀ id failure, setting.keeper.locked id = some failure → failure.kind ≠ .evaluation)
    (h : setting.Reports failure) : failure.kind ≠ .evaluation := by
  cases h with
  | unreadable h => exact hunreadable _ _ h
  | locked h => exact hlocked _ _ h
  | unused h =>
    rw [hitems] at h
    rcases ItemRoutine.consume_error h with hfailure | hworldly
    · exact hlocked _ _ hfailure
    · exact hworldly.kind_ne.1

namespace Visit

open Act

variable {v : Visit} {s : Stage} {text resolved : String}

-- A bound on failures: a failure of a formula is one that was reported from around the operations.
def Relays (v : Visit) (_ : Stage) (failure : Failure) : Prop :=
  failure.kind = .evaluation → v.setting.Reports failure

theorem relays_of_kind {failure : Failure} (h : failure.kind ≠ .evaluation) : v.Relays s failure :=
  fun hkind => absurd hkind h

-- Formulas of the operation are no concern of the bound, as their failures are caught. The one that is
-- not caught is the die that picks one of the targets, and there are faces enough for it.
theorem fails_relays (h : v.setting.targets.length ≤ Formula.maxFaces) : v.Fails v.Relays := by
  refine fails_of_reports (fun _ _ hworldly => relays_of_kind hworldly.kind_ne.1)
    (fun _ _ hreports _ => hreports) ?_ ?_
  · intro s text failure _ hfailure
    obtain ⟨id, -, -, rfl⟩ := Placeholder.substitute_error hfailure
    exact relays_of_kind (by simp [Failure.kind])
  · intro sides dice failure hpos hfew hfailure
    exact absurd hfailure (Formula.evaluate_die hpos (hfew.trans h) _ dice failure)

-- A formula whose placeholders are replaced comes to something in any case: to what its text is
-- evaluated to, or else to zero, which is told in a warning.
theorem run_evaluate
    (h : Placeholder.substitute text v.op.id s.records.value? = .ok resolved) (data : RollData) :
    (v.evaluate text data).run s = match (Formula.evaluate resolved data).run s.dice with
      | (.ok e, dice) => (.ok e, { s with dice })
      | (.error failure, dice) => (.ok .zero, Stage.tell { s with dice }
          (.notification .warning (v.op.label ++ ": " ++ failure.text ++ "; using 0"))) := by
  rw [evaluate, run_bind, run_substitute h]
  dsimp only
  rw [run_tryCatch, run_roll]
  rcases hrolled : (Formula.evaluate resolved data).run s.dice with ⟨result, dice⟩
  cases result with
  | ok e => rfl
  | error failure =>
    have hkind := Formula.kind_evaluate (congrArg Prod.fst hrolled)
    have hcaught : failure.halts = false := by simp [Failure.halts, hkind]
    simp only [hcaught, Bool.false_eq_true, if_false]
    rfl

-- What follows a formula goes on in any case.
theorem run_evaluate_bind
    (h : Placeholder.substitute text v.op.id s.records.value? = .ok resolved) (data : RollData)
    (rest : Evaluation → Act α) :
    (v.evaluate text data >>= rest).run s = match (Formula.evaluate resolved data).run s.dice with
      | (.ok e, dice) => (rest e).run { s with dice }
      | (.error failure, dice) => (rest .zero).run (Stage.tell { s with dice }
          (.notification .warning (v.op.label ++ ": " ++ failure.text ++ "; using 0"))) := by
  rw [run_bind, run_evaluate h]
  rcases (Formula.evaluate resolved data).run s.dice with ⟨failure | e, dice⟩
  · rfl
  · rfl

end Visit

end Tabletop
