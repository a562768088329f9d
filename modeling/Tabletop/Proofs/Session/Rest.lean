import Tabletop.Proofs.Document.Target
import Tabletop.Proofs.Session.Course
import Tabletop.Proofs.Session.Targets
import Tabletop.Proofs.Step.Fields

-- The target that is left bound when nothing waits.
namespace Tabletop

-- A target that is shown is shown after all that a visit can do, even if an operation has the key of
-- the bound target for its id.
theorem Visit.within_shows (v : Visit) (target : Option Snapshot) :
    v.Within (Outcome.Fits v.op.kind.recorded)
      (.keeping fun s => Records.Shows target s.records) where
  tells _ _ _ _ h := h
  rolls _ _ h := h
  updates _ _ _ _ _ _ h := h
  toggles _ _ _ _ _ h := h
  uses _ _ _ _ _ _ h := h
  creates _ _ _ _ _ _ h := h
  consumes _ resource _ _ _ _ _ _ _ h := (Records.lasting_shows target).setValue h resource _
  leaves _ h := h.fits
  marks _ _ _ h := h
  records _ _ hfits h := v.lasting_record (Records.lasting_shows target) hfits h

theorem Plan.tells_shows (plan : Plan) (setting : Setting) :
    plan.Tells setting Records.Shows where
  bind _ _ := Records.bound_bind.shows
  visits op _ target := ⟨_, Visit.within_shows ⟨setting, plan, op⟩ target⟩

namespace Session

open Records

variable {s t : Session} {base : Option Snapshot}

theorem told_reset (trigger : ResetTrigger) (h : s.Told Records.Shows base) :
    (s.perform (.reset trigger)).Told Records.Shows base := by
  have hrecords : ∀ {target : Option Snapshot}, Records.Shows target s.activity.records →
      Records.Shows target (s.perform (.reset trigger)).activity.records := by
    intro target htarget
    simp only [perform, Activity.resetResources]
    generalize s.activity.ledger.reset trigger = refilled
    obtain ⟨ids, ledger⟩ := refilled
    dsimp only
    generalize s.activity.records = r at htarget ⊢
    induction ids generalizing r with
    | nil => exact htarget
    | cons id ids ih =>
      rw [List.foldl_cons]
      refine ih _ ?_
      split
      · exact (lasting_shows target).setValue htarget id _
      · exact htarget
  cases hpending : s.activity.pending with
  | none =>
    have hkept : (s.perform (.reset trigger)).activity.pending = none := hpending
    exact (told_none hkept).2 (hrecords ((told_none hpending).1 h))
  | some p =>
    have hkept : (s.perform (.reset trigger)).activity.pending = some p := hpending
    obtain ⟨htarget, hbase⟩ := (told_some hpending).1 h
    exact (told_some hkept).2 ⟨hrecords htarget, hbase⟩

-- Some target is shown, be it that of the operation that waits or the one that is bound in the end.
theorem Told.self (h : s.Told Records.Shows base) :
    Records.Shows s.activity.records.target? s.activity.records := by
  cases hpending : s.activity.pending with
  | none => exact ((told_none hpending).1 h).self
  | some p => exact ((told_some hpending).1 h).1.self

-- Whether a deed gives up an unanswered prompt only where no target is bound. What is loaded has the
-- records and the prompt that were saved.
def Deed.Tidy (s : Session) : Deed → Prop
  | .clearPending | .call _ (.continueFrom _) => s.activity.records.target? = none
  | .reload savedAt => ∀ a, Archive.decode (Archive.encode savedAt s.activity) = .ok a →
    a.records = s.activity.records ∧ a.pending = s.activity.pending
  | _ => True

theorem Deed.tidy_reload (h : s.activity.Storable) (savedAt : Timestamp) :
    Tidy s (.reload savedAt) := by
  intro a hloaded
  rw [Archive.decode_encode h] at hloaded
  split at hloaded
  · cases hloaded
    exact ⟨rfl, rfl⟩
  · cases hloaded

theorem told_reload (savedAt : Timestamp) (hd : Deed.Tidy s (.reload savedAt))
    (h : s.Told Records.Shows base) : (s.reload savedAt).Told Records.Shows base := by
  obtain hkept | ⟨activity, hloaded, hread⟩ := s.reload_cases savedAt
  · rwa [hkept]
  · obtain ⟨hrecords, hpending⟩ := hd activity hloaded
    rw [hread]
    simpa only [Told, hrecords, hpending] using h

theorem told_tidy {d : Deed} (hd : d.Tidy s) (h : s.Told Records.Shows none) :
    (s.perform d).Told Records.Shows none := by
  cases d with
  | call setting c =>
    have hshows := s.activity.toPlan.tells_shows setting
    cases c with
    | start origin =>
      rw [perform, call]
      obtain ⟨-, hsame⟩ | ⟨-, hstarted⟩ := told_start hshows origin
      · rwa [hsame]
      · exact hstarted
    | continueFrom id =>
      rw [perform, call]
      obtain hsame | hcontinued := told_continueFrom hshows id h.self
      · rwa [hsame]
      · rwa [hd] at hcontinued
    | resume token answer => exact told_resume hshows token answer h
  | reset trigger => exact told_reset trigger h
  | clearPending =>
    have hnone : (s.perform .clearPending).activity.pending = none := rfl
    exact (told_none hnone).2 (shows_none.2 hd)
  | reload savedAt =>
    have hreloaded := told_reload savedAt hd h
    exact hreloaded
  | meanwhile world dice => exact h

-- As long as a prompt is only given up where no target is bound, no target is bound when nothing
-- waits. Where one is bound, to clear the prompt or to go on from another operation leaves it bound
-- for good.
theorem unbound_at_rest (hpending : s.activity.pending = none)
    (htarget : s.activity.records.target? = none) (ht : s.Course Deed.Tidy t) :
    (t.activity.pending = none → t.activity.records.target? = none) ∧
    ∀ target, t.activity.records.target? = some target →
      ((t.perform .clearPending).activity.pending = none ∧
        (t.perform .clearPending).activity.records.target? = some target) ∧
      ∀ setting id report t', t.call setting (.continueFrom id) = (.ok report, t') →
        report.status = .completed ∨ report.status = .halted →
        t'.activity.pending = none ∧ t'.activity.records.target? = some target := by
  have htold : t.Told Records.Shows none :=
    ht.keeps (fun _ _ => told_tidy) ((told_none hpending).2 (shows_none.2 htarget))
  refine ⟨fun hrest => shows_none.1 ((told_none hrest).1 htold), fun target hbound =>
    ⟨⟨rfl, hbound⟩, fun setting id report t' hcall hover => ?_⟩⟩
  have hrest := pending_of_over hcall hover
  refine ⟨hrest, ?_⟩
  have hcontinued : t' = (t.continueFrom setting id).2 := (congrArg Prod.snd hcall).symm
  obtain hsame | hshows :=
    told_continueFrom (t.activity.toPlan.tells_shows setting) id htold.self
  · rw [hcontinued, hsame]
    exact hbound
  · rw [← hcontinued] at hshows
    have hshown := ((told_none hrest).1 hshows).target?_eq
    rw [hshown, map_settled_target?, hbound]

-- The first goblin stays bound when the question about it is cleared.
theorem unbound_at_rest_parting :
    let asked := (parting.start bargain none).2
    parting.activity.pending = none ∧ parting.activity.records.target? = none ∧
    parting.Course Deed.Tidy asked ∧
    asked.activity.records.target?.map Snapshot.id = some "g1" ∧
    (asked.perform .clearPending).activity.pending = none ∧
    (asked.perform .clearPending).activity.records.target?.map Snapshot.id = some "g1" := by
  have hcourse : parting.Course Deed.Tidy (parting.start bargain none).2 :=
    .next (.call bargain (.start none)) trivial .here
  have hasked : (parting.start bargain none).2.activity.records.target?.map Snapshot.id =
      some "g1" := by cbv
  obtain ⟨target, htarget, hid⟩ := Option.map_eq_some_iff.1 hasked
  obtain ⟨-, hleft⟩ := unbound_at_rest rfl rfl hcourse
  obtain ⟨hcleared, hbound⟩ := (hleft target htarget).1
  exact ⟨rfl, rfl, hcourse, hasked, hcleared, by rw [hbound, ← hid]; rfl⟩

end Session

end Tabletop
