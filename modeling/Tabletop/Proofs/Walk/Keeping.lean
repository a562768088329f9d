import Tabletop.Proofs.Step.Keeping
import Tabletop.Proofs.Walk.Relating

-- What visits, answers and walks preserve.
namespace Tabletop

variable {P : Stage → Prop} {run : Run} {v : Visit}

theorem Visit.Preserves.within (hP : v.Preserves P) : v.Within (fun _ => True) (.keeping P) where
  toChanges := hP.toChanges
  toggles := hP.toggles
  leaves _ _ := trivial
  marks s _ _ := hP.events s _
  records s outcome _ h := by
    obtain ⟨result, value, fields, notes⟩ := outcome
    have hmerged : ∀ {s : Stage}, P s → P { s with
        records := if fields.isEmpty then s.records else s.records.merge v.op.id fields } := by
      intro s hs
      split
      · exact hs
      · exact hP.own s _ hs
    cases value with
    | none => exact hmerged h
    | some value => exact hmerged (hP.own s _ h)

namespace Visit

theorem keeps_settle {P : Records → Prop} (target : Option String) (hP : v.op.Allows P)
    (outcome : Except Failure Outcome) (h : P run.records) :
    P (v.settle target outcome run).2.records :=
  (hP.preserves.within.relates target).settle run (fun _ _ => trivial) h

theorem keeps_visit {P : Records → Prop} (target : Option String) (hP : v.op.Allows P)
    (selected : Bool) (h : P run.records) : P (v.visit target selected run).2.records :=
  (hP.preserves.within.relates target).visit selected run h

end Visit

-- What survives all visits and every change of the bound target survives a walk.
theorem Run.preserves_walk (setting : Setting) {plan : Plan}
    (hP : ∀ op ∈ plan.operations, (Visit.mk setting plan op).Preserves P)
    (hbind : ∀ s target, P s → P { s with records := s.records.bind target }) (c : Cursor)
    (run : Run) (h : P run.toStage) : P (run.walk setting plan c).2.toStage :=
  within_walk (E := .keeping P) (fun op hop => ⟨_, (hP op hop).within⟩) hbind c run h

theorem Recursion.keeps_reply {P : Records → Prop} (target : Option String) (hP : v.op.Allows P)
    (answer : Answer) (h : P run.records) : P (reply v target answer run).2.records :=
  (hP.preserves.within.relates target).reply answer run h

theorem Session.preserves_answered (hP : v.Preserves P) (c : Cursor) (answer : Answer) (run : Run)
    (h : P run.toStage) : P (Session.answered v c answer run).2.toStage :=
  (hP.within.relates c.targetId).answered answer run h

end Tabletop
