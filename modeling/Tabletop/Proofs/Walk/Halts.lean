import Tabletop.Proofs.Step.References
import Tabletop.Proofs.Validation
import Tabletop.Proofs.Walk.Stops

-- How a stop halts: once at most, and for a failure of its operation, because the operation says so,
-- or because an answer leads nowhere. What is so of all failures is so of all halts.
namespace Tabletop

-- Whether a run reports no halt that another one does not report, or one that is as it may be.
def Visit.Halting (v : Visit) (target : Option String) (H : Records → FailureKind → String → Prop)
    (run run' : Run) : Prop :=
  run'.halts = run.halts ∨ ∃ kind reason,
    run'.halts = run.halts ++ [⟨v.op.id, target, kind, reason⟩] ∧ H run'.records kind reason

-- Whether halts are as they may be for all failures of an operation within a bound, and for an
-- operation that says so.
structure Visit.Excuses (v : Visit) (F : Stage → Failure → Prop)
    (H : Records → FailureKind → String → Prop) : Prop where
  fails : v.Fails F
  rejected : ∀ message s, F s (v.rejected message)
  cancelled : ∀ s, F s (.cancelled v.op.id)
  failure : ∀ (s : Stage) failure, F s failure → H s.records failure.kind failure.text
  halted : ∀ r reason, H r .precondition reason

-- The halts that a stop reports are those of its run.
theorem Visit.Halting.of_mem {v : Visit} {target : Option String}
    {H : Records → FailureKind → String → Prop} {stop : Stop}
    (h : v.Halting target H stop.before stop.after) {halt : HaltRecord} (hmem : halt ∈ stop.halts) :
    halt.operation = v.op.id ∧ H stop.after.records halt.kind halt.reason := by
  obtain hnone | ⟨kind, reason, hsome, hhalt⟩ := h
  · rw [Stop.halts, hnone, List.drop_length] at hmem
    cases hmem
  · rw [Stop.halts, hsome, List.drop_left, List.mem_singleton] at hmem
    subst hmem
    exact ⟨rfl, hhalt⟩

namespace Visit

variable {v : Visit} {target : Option String} {run : Run} {F : Stage → Failure → Prop}
  {H : Records → FailureKind → String → Prop}

theorem halting_halt {kind : FailureKind} {reason : String} (h : H run.records kind reason) :
    v.Halting target H run (v.halt target kind reason run) :=
  .inr ⟨kind, reason, rfl, h⟩

-- Paying, starting and skipping report no halts, and leave the records to what follows.
theorem Halting.of_halts (run' : Run) {run'' : Run} (hhalts : run'.halts = run.halts)
    (h : v.Halting target H run' run'') : v.Halting target H run run'' := by
  rwa [Halting, hhalts] at h

namespace Excuses

theorem settle (h : v.Excuses F H) {result : Except Failure Outcome}
    (hresult : ∀ failure, result = .error failure → F run.toStage failure) :
    v.Halting target H run (v.settle target result run).2 := by
  cases result with
  | error failure => exact halting_halt (h.failure _ failure (hresult failure rfl))
  | ok outcome =>
    simp only [Visit.settle, follow]
    split
    · exact .inl rfl
    · exact .inr ⟨.precondition, _, rfl, h.halted _ _⟩
    · exact .inl rfl
    · exact .inl rfl

theorem charge (h : v.Excuses F H) {run' : Run} {failure : Failure}
    (hcharge : v.charge run = (.error failure, run')) : F run'.toStage failure := by
  unfold Visit.charge at hcharge
  split at hcharge
  · cases hcharge
  · split at hcharge
    · cases hcharge
    · next hpay =>
      cases hcharge
      obtain ⟨hresult, rfl⟩ := Prod.ext_iff.1 hpay
      exact (does_pay v.changes_anything.toUpdates h.fails (fun _ _ _ _ => trivial)
        run.toStage).2 failure hresult

theorem visit (h : v.Excuses F H) (selected : Bool) :
    v.Halting target H run (v.visit target selected run).2 := by
  unfold Visit.visit
  split
  · exact .inl rfl
  · split
    · exact .inl rfl
    · obtain ⟨-, -, -, hhalts⟩ := v.charge_keeps run
      split
      · next failure run' hcharge =>
        rw [hcharge] at hhalts
        exact .of_halts run' hhalts (halting_halt (h.failure _ failure (h.charge hcharge)))
      · next run' hcharge =>
        rw [hcharge] at hhalts
        exact .of_halts ((v.announceStart target run').act v.begin).2 hhalts
          (h.settle (does_begin v.changes_anything h.fails _).2)

theorem halts_of_onward {outcome : Outcome} {run' : Run}
    (h : v.settle target (.ok outcome) run = (.onward, run')) : run'.halts = run.halts := by
  obtain ⟨result, value, fields, notes⟩ := outcome
  cases result <;> cases h
  rfl

-- Where an answer leads nowhere, the branch is ended for that.
theorem destined (h : v.Excuses F H) {outcome : Outcome} {destination : Option String}
    (hdestination : ∀ id r, destination = some id → v.plan.position? id = none →
      H r .configuration ("continues from unknown operation '" ++ id ++ "'")) :
    v.Halting target H run
      (Recursion.destined v target destination (v.settle target (.ok outcome) run)).2 := by
  have hsettle : v.Halting target H run (v.settle target (.ok outcome) run).2 :=
    h.settle fun _ hfailure => nomatch hfailure
  rcases hmoved : v.settle target (.ok outcome) run with ⟨move, run'⟩
  rw [hmoved] at hsettle
  cases move with
  | onward =>
    cases destination with
    | none => exact hsettle
    | some id =>
      simp only [Recursion.destined]
      split
      · exact hsettle
      · next hnowhere =>
        exact .of_halts run' (halts_of_onward hmoved)
          (halting_halt (hdestination id run'.records rfl hnowhere))
  | _ => exact hsettle

theorem answered (h : v.Excuses F H) {c : Cursor} {answer : Answer}
    (hdestination : ∀ outcome id s s' r, (v.accept answer).run s = (.ok (outcome, some id), s') →
      v.plan.position? id = none →
      H r .configuration ("continues from unknown operation '" ++ id ++ "'")) :
    v.Halting c.targetId H run (Session.answered v c answer run).2 := by
  rw [Recursion.answered_eq_reply]
  show v.Halting c.targetId H run (Recursion.reply v c.targetId answer run).2
  unfold Recursion.reply
  split
  · exact halting_halt (h.failure run.toStage _ (h.cancelled _))
  · refine .of_halts ((v.announceStart c.targetId run).act (v.accept answer)).2 rfl ?_
    have hdoes := (does_accept v.changes_anything h.fails h.rejected h.cancelled answer
      (v.announceStart c.targetId run).toStage).2
    rcases htaken : (v.announceStart c.targetId run).act (v.accept answer) with ⟨result, run'⟩
    obtain ⟨hresult, rfl⟩ := Prod.ext_iff.1 htaken
    unfold Recursion.answered
    split
    · next hrejected => exact .inl (congrArg (fun moved => moved.2.halts) hrejected.symm)
    · next hfailed =>
      cases hfailed
      exact halting_halt (h.failure _ _ (hdoes _ hresult))
    · next outcome destination run'' hdone =>
      cases hdone
      refine h.destined fun id r hid => ?_
      subst hid
      have haccept : (v.accept answer).run (v.announceStart c.targetId run).toStage =
          (.ok (outcome, some id),
            ((v.accept answer).run (v.announceStart c.targetId run).toStage).2) :=
        Prod.ext hresult rfl
      exact hdestination outcome id _ _ r haccept

end Excuses

/-! Halts for how an activity was authored -/

-- Whether a halt that is for how the activity was authored tells of a miss.
def Miss (v : Visit) (r : Records) (kind : FailureKind) (reason : String) : Prop :=
  kind = .configuration → ∃ failure, reason = failure.text ∧ v.Misses r failure

end Visit

end Tabletop
