import Tabletop.Archive
import Tabletop.Proofs.Document.Giving
import Tabletop.Proofs.Json.Finite
import Tabletop.Proofs.Ledger

-- The pools of an activity that was read from a text are finite.
namespace Tabletop

namespace Json

theorem finiteItems_iff {items : List Json} : FiniteItems items ↔ ∀ item ∈ items, item.Finite := by
  induction items with
  | nil => simp [FiniteItems]
  | cons item items ih => simp [FiniteItems, ih]

theorem finiteMembers_iff {members : List (String × Json)} :
    FiniteMembers members ↔ ∀ m ∈ members, m.2.Finite := by
  induction members with
  | nil => simp [FiniteMembers]
  | cons member members ih => simp [FiniteMembers, ih]

theorem hereditary_finite : Hereditary Json.Finite := ⟨finiteItems_iff.1, finiteMembers_iff.1⟩

end Json

namespace Document

theorem gives_real : Gives Json.Finite (fun x => x.isFinite = true) real := by
  intro j x hj h
  unfold real at h
  split at h
  · next n =>
    rw [← Option.some.inj h]
    exact Binary64.isFinite_ofInt (Json.Whole64.natAbs_le hj)
  · cases h
    exact hj
  · cases h

end Document

open Document

theorem Resource.gives_read : Gives Json.Finite Resource.Finite read := by
  refine gives_record Json.hereditary_finite ?_
  refine .bind (.need (gives_true _)) fun id _ => ?_
  refine .bind (.need (gives_true _)) fun name _ => ?_
  refine .bind (.need (gives_true _)) fun maximumFormula _ => ?_
  refine .bind (.need gives_real) fun maximum hmaximum => ?_
  refine .bind (.need gives_real) fun value hvalue => ?_
  refine .bind (.need (gives_true _)) fun negativeAllowed _ => ?_
  refine .bind (.need (gives_true _)) fun reset _ => ?_
  exact .pure ⟨hmaximum, hvalue⟩

theorem Ledger.gives_read : Gives Json.Finite Ledger.Finite read :=
  gives_dict Json.hereditary_finite Resource.gives_read

theorem Activity.gives_read : Gives Json.Finite (fun a => a.ledger.Finite) read := by
  have hempty : Ledger.Finite {} := fun _ _ hfound => nomatch hfound
  refine gives_record Json.hereditary_finite ?_
  refine .bind (.need (gives_true _)) fun id _ => ?_
  refine .bind (.orElse trivial (gives_true _)) fun name _ => ?_
  refine .bind (.orElse trivial (gives_true _)) fun system _ => ?_
  refine .bind (.orElse trivial (gives_true _)) fun operations _ => ?_
  refine .bind (.orElse trivial (gives_true _)) fun records _ => ?_
  refine .bind (.orElse hempty Ledger.gives_read) fun ledger hledger => ?_
  refine .bind (.orElse trivial (gives_true _)) fun pending _ => ?_
  refine .bind (.orElse trivial (gives_true _)) fun charged _ => ?_
  exact .pure hledger

theorem SavedActivity.gives_read :
    Gives Json.Finite (fun saved => saved.activity.ledger.Finite) read := by
  refine gives_record Json.hereditary_finite ?_
  refine .bind (.need Activity.gives_read) fun activity hledger => ?_
  refine .bind (.need (gives_true _)) fun savedAt _ => ?_
  exact .pure hledger

theorem Activity.finite_ofText? {text : String} {a : Activity} (h : ofText? text = some a) :
    a.ledger.Finite := by
  obtain ⟨j, hj, hread⟩ := Option.bind_eq_some_iff.1 h
  exact gives_read j a (Json.finite_read? hj) hread

theorem Archive.finite_decode {text : String} {a : Activity} (h : decode text = .ok a) :
    a.ledger.Finite := by
  unfold decode at h
  split at h
  · next saved hsaved =>
    cases h
    obtain ⟨j, hj, hread⟩ := Option.bind_eq_some_iff.1 hsaved
    exact SavedActivity.gives_read j saved (Json.finite_read? hj) hread
  · cases h

end Tabletop
