import Tabletop.Proofs.Session.Rejection
import Tabletop.Proofs.Session.Targets
import Tabletop.Proofs.Step.Formulas
import Tabletop.Proofs.Walk.Halts

-- Formulas that cannot be evaluated do not end the branches of an invocation.
namespace Tabletop

namespace Visit

variable {v : Visit}

-- Whether a halt that is for a formula tells of a failure that was reported from around the
-- operations.
def Relayed (v : Visit) (_ : Records) (kind : FailureKind) (reason : String) : Prop :=
  kind = .evaluation →
    ∃ failure, v.setting.Reports failure ∧ failure.kind = .evaluation ∧ reason = failure.text

theorem excuses_relays (h : v.setting.targets.length ≤ Formula.maxFaces) :
    v.Excuses v.Relays v.Relayed where
  fails := fails_relays h
  rejected _ _ := relays_of_kind (by simp [Failure.kind, Visit.rejected])
  cancelled _ := relays_of_kind (by simp [Failure.kind])
  failure _ failure hrelays hkind := ⟨failure, hrelays hkind, hkind, rfl⟩
  halted _ _ hkind := nomatch hkind

end Visit

namespace Session

variable {setting : Setting} {s t : Session}

-- An answer that leads nowhere ends its branch as well, but for how the activity was authored.
theorem halting_stops_of_few (h : setting.targets.length ≤ Formula.maxFaces) (c : Call) :
    ∀ stop ∈ s.stops setting c, (Visit.mk setting s.activity.toPlan stop.op).Halting
      stop.cursor.targetId (Visit.mk setting s.activity.toPlan stop.op).Relayed
      stop.before stop.after :=
  forall_stops (fun _ _ c _ => (Visit.excuses_relays h).visit c.selected)
    (fun _ _ _ _ _ => (Visit.excuses_relays h).answered fun _ _ _ _ _ _ _ hkind => nomatch hkind) c

theorem relayed_of_call (h : setting.targets.length ≤ Formula.maxFaces) {c : Call} {report : Report}
    (hcall : s.call setting c = (.ok report, t)) {halt : HaltRecord} (hmem : halt ∈ report.halts)
    (hkind : halt.kind = .evaluation) :
    ∃ failure, setting.Reports failure ∧ failure.kind = .evaluation ∧ halt.reason = failure.text := by
  rw [(reports_call hcall).2, List.mem_flatMap] at hmem
  obtain ⟨stop, hstop, hmem⟩ := hmem
  exact ((halting_stops_of_few h c stop hstop).of_mem hmem).2 hkind

-- With no more targets than a die may have faces, no branch is ended for a formula, unless the keeping
-- of the world or the use of an item reports such a failure on its own. Wherever an operation
-- evaluates a text, of its own or put together from recorded values, it goes on: with what the text
-- comes to, or with zero after a warning.
theorem formulas_never_halt (hfew : setting.targets.length ≤ 1000000) :
    (∀ (s t : Session) (c : Call) (report : Report), s.call setting c = (.ok report, t) →
      ∀ halt ∈ report.halts, halt.kind = .evaluation →
        ∃ failure, setting.Reports failure ∧ failure.kind = .evaluation ∧
          halt.reason = failure.text) ∧
    ((∀ failure, setting.Reports failure → failure.kind ≠ .evaluation) →
      ∀ (s t : Session) (c : Call) (report : Report), s.call setting c = (.ok report, t) →
        ∀ halt ∈ report.halts, halt.kind ≠ .evaluation) ∧
    ∀ (v : Visit) (s : Stage) (text resolved : String),
      Placeholder.substitute text v.op.id s.records.value? = .ok resolved →
      ∀ (data : RollData) (α : Type) (rest : Evaluation → Act α),
        (v.evaluate text data >>= rest).run s =
          match (Formula.evaluate resolved data).run s.dice with
          | (.ok e, dice) => (rest e).run { s with dice }
          | (.error failure, dice) => (rest .zero).run (Stage.tell { s with dice }
              (.notification .warning (v.op.label ++ ": " ++ failure.text ++ "; using 0"))) := by
  refine ⟨fun s t c report hcall halt hmem => relayed_of_call hfew hcall hmem, ?_, ?_⟩
  · intro hquiet s t c report hcall halt hmem hkind
    obtain ⟨failure, hreports, hevaluation, -⟩ := relayed_of_call hfew hcall hmem hkind
    exact hquiet failure hreports hevaluation
  · intro v s text resolved hresolved data α rest
    exact Visit.run_evaluate_bind hresolved data rest

-- A prayer for as much as a text says that is no formula, by a hero who has nothing to be healed.
def pray : Operation := { id := "pray", kind := .heal "1d" none .actor [] }

def prayer : Session where
  activity := { id := "prayer", operations := [pray] }
  world := World.ofList [{ id := "hero", name := "Hero" }]
  dice := .highest

theorem errors_prayer : prayer.activity.errors = [] :=
  Activity.errors_eq_nil (by decide +kernel) rfl rfl (by decide +kernel)

theorem not_reports_bargain (failure : Failure) (h : bargain.Reports failure) :
    failure.kind ≠ .evaluation := by
  refine Setting.kind_of_reports rfl ?_ ?_ h
  · exact fun _ _ hunreadable => nomatch hunreadable
  · exact fun _ _ hlocked => nomatch hlocked

-- The text counts as zero, which is told, and the branch is ended for what comes after it.
theorem formulas_never_halt_prayer :
    bargain.targets.length ≤ 1000000 ∧
    (∀ failure, bargain.Reports failure → failure.kind ≠ .evaluation) ∧
    (∃ report t, prayer.call bargain (.start none) = (.ok report, t) ∧
      report.halts = [⟨"pray", none, .precondition,
        "Operation 'pray' cannot run: Hero has no 'hp' to restore"⟩] ∧
      ∀ halt ∈ report.halts, halt.kind ≠ .evaluation) ∧
    ∃ failure dice, (Formula.evaluate "1d" Dict.empty).run prayer.dice = (.error failure, dice) ∧
      ((Visit.mk bargain prayer.activity.toPlan pray).evaluate "1d" Dict.empty >>=
        fun e => pure (e.total + 3)).run prayer.run.toStage =
        (.ok (0 + 3), Stage.tell { prayer.run.toStage with dice }
          (.notification .warning ("pray: " ++ failure.text ++ "; using 0"))) := by
  have hfew : bargain.targets.length ≤ 1000000 := by simp [bargain]
  obtain ⟨-, hquietly, hzero⟩ := formulas_never_halt hfew
  refine ⟨hfew, not_reports_bargain, ?_, ?_⟩
  · have hpray : prayer.activity.toPlan.order[0]? = some pray := by
      simp [Plan.order, prayer]
    have hvisit : ((Visit.mk bargain prayer.activity.toPlan pray).visit none false
        prayer.begun.run).1 = .ended := by rfl
    have hcall := start_of_ended errors_prayer hpray (Prod.ext hvisit rfl)
    exact ⟨_, _, hcall, by decide +kernel,
      hquietly not_reports_bargain prayer _ (.start none) _ hcall⟩
  · have hfails : ((Formula.evaluate "1d" Dict.empty).run prayer.dice).1.isOk = false := by
      decide +kernel
    rcases hrolled : (Formula.evaluate "1d" Dict.empty).run prayer.dice with ⟨failure | e, dice⟩
    · refine ⟨failure, dice, rfl, ?_⟩
      have hrest := hzero (Visit.mk bargain prayer.activity.toPlan pray) prayer.run.toStage "1d" "1d"
        (by cbv) Dict.empty Binary64 fun e => pure (e.total + 3)
      have hdice : prayer.run.toStage.dice = prayer.dice := rfl
      rw [hdice, hrolled] at hrest
      exact hrest
    · rw [hrolled] at hfails
      cases hfails

end Session

end Tabletop
