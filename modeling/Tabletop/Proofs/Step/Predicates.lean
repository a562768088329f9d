import Tabletop.Proofs.Formula.Placeholder
import Tabletop.Proofs.Predicate
import Tabletop.Proofs.Step.Effects

-- A recorded value in a condition against the reference to it.
namespace Tabletop

namespace Placeholder

theorem isWordChar_of_isName {id : String} (h : isName id = true) :
    ∀ c ∈ id.toList, isWordChar c = true := by
  unfold isName at h
  split at h
  · cases h
  · next c rest heq =>
    rw [heq]
    simp only [Bool.and_eq_true, Bool.or_eq_true, decide_eq_true_eq, List.all_eq_true] at h
    refine List.forall_mem_cons.2 ⟨?_, h.2⟩
    obtain hletter | rfl := h.1
    · simp [isWordChar, hletter]
    · rfl

theorem pieces_reference {id : String} (h : isName id = true) :
    pieces ("#" ++ id) = [.reference id.toList] := by
  have hscan := @scan_word [] id.toList [] (isWordChar_of_isName h) (by simp)
  rw [List.append_nil] at hscan
  rw [pieces, String.toList_append]
  exact hscan

theorem substitute_reference {id operation form : String} {values : String → Option Json}
    {j : Json} (name : isName id = true) (recorded : values id = some j)
    (hform : render? j = some form) : substitute ("#" ++ id) operation values = .ok form := by
  have hresolve : resolve? values id = some form := by
    rw [resolve?, if_pos name, recorded, Option.bind_some, hform]
  rw [substitute_eq_ok fun _ => form, pieces_reference name]
  · simp [Piece.text, String.join]
  · intro other hother
    rw [pieces_reference name, List.mem_singleton] at hother
    cases hother
    rw [String.ofList_toList, hresolve]

end Placeholder

namespace Text

theorem cut_eq_none {mark : Char} {s : List Char} (h : mark ∉ s) : cut mark s = none := by
  induction s with
  | nil => rfl
  | cons c s ih =>
    rw [List.mem_cons, not_or] at h
    rw [cut, if_neg (Ne.symm h.1), ih h.2]
    rfl

end Text

namespace Visit

open Act

variable {v : Visit}

theorem get?_value (record : Json) : record.get? "value" = record.member? "value" := by
  have hsegments : Path.segments "value" = ["value"] := by decide
  rw [Json.get?, if_neg (by decide), hsegments, Json.follow?]
  cases record.member? "value" <;> rfl

theorem actual_operation {p : Predicate} {actor : Entity} {data : RollData} {records : Records}
    {j : Json} (source : p.source = .operation) (name : Placeholder.isName p.key = true)
    (recorded : records.value? p.key = some j) : v.actual p actor data records = j := by
  have hcut : Text.cut '.' p.key.toList = none := by
    refine Text.cut_eq_none fun hpoint => ?_
    exact absurd (Placeholder.isWordChar_of_isName name _ hpoint) (by decide)
  have hfound : (records.find? p.key).bind (Json.member? "value") = some j := by
    unfold Records.value? at recorded
    split at recorded
    · cases recorded
    · exact recorded
  have hget : (fun record : Json => record.get? "value") = Json.member? "value" :=
    funext get?_value
  simp only [actual, source, hcut, hget, hfound, Option.getD_some]

-- A recorded value passes the test against its own reference exactly if it equals the literal that
-- it is written as.
theorem judge_reference {actor : Entity} {data : RollData} {s : Stage} {x : String} {j : Json}
    {text : String} {priority : Int} (name : Placeholder.isName x = true)
    (recorded : s.records.value? x = some j) (form : Placeholder.render? j = some text) :
    ∃ passed, (v.judge actor data ⟨.operation, x, .equal, "#" ++ x, priority⟩).run s =
        (.ok (⟨.operation, x, .equal, "#" ++ x, priority⟩, passed), s) ∧
      (passed = true ↔ j.Restated) ∧
      (j.FiniteNumber → Text.Short text.toList → passed = true) := by
  have hrun : (v.judge actor data ⟨.operation, x, .equal, "#" ++ x, priority⟩).run s =
      (.ok (⟨.operation, x, .equal, "#" ++ x, priority⟩, j.loosely (Json.ofLiteral text)), s) := by
    rw [judge, run_get_bind, run_bind,
      run_substitute (Placeholder.substitute_reference name recorded form),
      actual_operation rfl name recorded]
    rfl
  have hpassed := Json.loosely_ofLiteral form
  refine ⟨_, hrun, hpassed, fun finite short => hpassed.2 ?_⟩
  cases j with
  | int n =>
    obtain rfl := Option.some.inj form
    exact Json.rereads_of_short (Binary64.isFinite_ofInt (Json.Whole64.natAbs_le finite)) short
  | float y =>
    obtain rfl := Option.some.inj form
    exact Json.rereads_of_short finite short
  | null | bool | str | arr | obj => cases finite

-- A gate that looks at the luck that was drawn.
def gate : Visit :=
  ⟨{ actor := "hero" }, { id := "omen" }, { id := "gate", kind := .condition [] false }⟩

def drawn (j : Json) : Stage :=
  { records := Records.setValue {} "luck" j, ledger := {}, world := World.ofList [], dice := .highest
    events := [] }

def seer : Entity := { id := "hero", name := "Hero" }

theorem judge_reference_seven :
    (drawn (.int 7)).records.value? "luck" = some (.int 7) ∧
      (gate.judge seer {} ⟨.operation, "luck", .equal, "#luck", 0⟩).run (drawn (.int 7)) =
        (.ok (⟨.operation, "luck", .equal, "#luck", 0⟩, true), drawn (.int 7)) := by
  have hrecorded : (drawn (.int 7)).records.value? "luck" = some (.int 7) := rfl
  have hform : Placeholder.render? (.int 7) = some "7" := by decide +kernel
  obtain ⟨passed, hrun, -, hshort⟩ :=
    @judge_reference gate seer {} (drawn (.int 7)) "luck" (.int 7) "7" 0 (by decide) hrecorded hform
  obtain rfl := hshort ⟨by decide, by decide⟩ (by decide)
  exact ⟨hrecorded, hrun⟩

-- A boolean shows as a number in formulas, and counts as none in conditions.
theorem not_judge_reference_true :
    ¬ ∀ (v : Visit) (actor : Entity) (data : RollData) (s : Stage) (x : String) (j : Json),
      Placeholder.isName x = true → s.records.value? x = some j →
        (Placeholder.render? j).isSome = true →
          ((v.judge actor data ⟨.operation, x, .equal, "#" ++ x, 0⟩).run s).1 =
            .ok (⟨.operation, x, .equal, "#" ++ x, 0⟩, true) := by
  intro hall
  have hpassed := hall gate seer {} (drawn (.bool true)) "luck" (.bool true) (by decide) rfl rfl
  have hverdict := congrArg (fun result => (result.toOption.map Prod.snd).getD false) hpassed
  revert hverdict
  decide +kernel

end Visit

end Tabletop
