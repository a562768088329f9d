import Mathlib
import Tabletop.Proofs.Ledger
import Tabletop.Proofs.Session.Calls
import Tabletop.Proofs.Step.Rejection
import Tabletop.Proofs.Walk.Binding

-- An answer that fails leaves everything as it was.
namespace Tabletop

namespace Ledger

variable {ledger ledger' : Ledger} {key : String}

theorem not_contains_create {resource : Resource} (hid : resource.id ≠ key)
    (h : Dict.contains ledger key = false) :
    Dict.contains (ledger.create resource).2 key = false := by
  unfold create
  split
  · exact h
  · simp [h, hid.symm]

theorem not_contains_consume {id : String} {amount left : Binary64}
    (hconsume : ledger.consume id amount = .ok (left, ledger'))
    (h : Dict.contains ledger key = false) : Dict.contains ledger' key = false := by
  obtain ⟨old, hold, -, rfl⟩ := of_consume hconsume
  have hid : key ≠ id := by
    rintro rfl
    simp [Dict.contains, hold] at h
  simp [h, hid]

end Ledger

-- No pool has the key of the bound target.
def Stage.Spared (s : Stage) : Prop := Dict.contains s.ledger Records.targetKey = false

theorem Operation.Spares.preserves {v : Visit} (h : v.op.Spares) : v.Preserves Stage.Spared where
  tells _ _ _ _ hs := hs
  rolls _ _ hs := hs
  updates _ _ _ _ _ _ hs := hs
  toggles _ _ _ _ _ hs := hs
  uses _ _ _ _ _ _ hs := hs
  creates _ _ _ hid _ _ := Ledger.not_contains_create (hid ▸ h.1)
  consumes _ _ _ _ _ _ _ _ := Ledger.not_contains_consume
  events _ _ hs := hs
  own _ _ hs := hs

-- In an activity without errors, and without a pool under the key of the bound target, no
-- operation can write under this key.
theorem Activity.spares {a : Activity} (herrors : a.errors = [])
    (hledger : Dict.contains a.ledger Records.targetKey = false) : a.toPlan.Spares := by
  have hids := id_ne_target herrors
  have huncreated : a.operations.any (Validation.creates Records.targetKey) = false := by
    rw [List.any_eq_false]
    intro op hop hcreates
    unfold Validation.creates at hcreates
    split at hcreates
    · exact hids op hop (by simpa using hcreates)
    · cases hcreates
  intro op hop
  refine ⟨hids op hop, fun amount hkind => ?_⟩
  have hfinding : Validation.finding "resource_refs" .error op
      (Validation.quoted op.label ++ " consumes " ++ Validation.quoted Records.targetKey ++
        ", which no createResource operation creates") ∈ Validation.resourceRefs a := by
    rw [Validation.resourceRefs, List.mem_filterMap]
    exact ⟨op, hop, by simp [hkind, huncreated, hledger]⟩
  have hreferences : ∀ d ∈ Validation.resourceRefs a, d.severity ≠ .error := fun d hd =>
    severity_ne_error herrors d (by simp [diagnostics, hd])
  exact hreferences _ hfinding rfl

namespace Session

-- No pool has the key of the bound target, and if an operation waits then for the bound target,
-- whose key no operation takes.
structure Settled (s : Session) : Prop where
  ledger : Dict.contains s.activity.ledger Records.targetKey = false
  spares : ∀ p, s.activity.pending = some p → s.activity.toPlan.Spares
  bound : ∀ p, s.activity.pending = some p → s.activity.records.Bound p.target

variable {setting : Setting} {s s' : Session} {run : Run}

theorem settled_close (setting : Setting) (wait : Option Wait)
    (hpending : s.activity.pending = none) (hspares : s.activity.toPlan.Spares)
    (hspared : run.toStage.Spared)
    (hbound : ∀ w, wait = some w → run.records.Bound w.cursor.target) :
    (s.close setting wait run).2.Settled := by
  cases wait with
  | none =>
    have hnone : (s.close setting none run).2.activity.pending = none := hpending
    exact ⟨hspared, fun p hp => by simp [hnone] at hp, fun p hp => by simp [hnone] at hp⟩
  | some w =>
    refine ⟨hspared, fun p _ => hspares, fun p hp => ?_⟩
    cases hp
    exact hbound w rfl

theorem settled_drive (setting : Setting) (c : Cursor) (hpending : s.activity.pending = none)
    (hspares : s.activity.toPlan.Spares) (hspared : run.toStage.Spared)
    (hbound : run.records.Bound c.target) : (s.drive setting c run).2.Settled := by
  have hwalk := Run.preserves_walk setting (fun op hop => (hspares op hop).preserves)
    (fun _ _ h => h) c run hspared
  exact settled_close setting _ hpending hspares hwalk (Run.bound_walk setting hspares c run hbound)

theorem settled_start (setting : Setting) (origin : Option String) (hs : s.Settled) :
    (s.start setting origin).2.Settled := by
  have hstarting := s.starting setting origin
  generalize s.start setting origin = called at hstarting ⊢
  cases hstarting with
  | invalid => exact hs
  | unknown => exact ⟨hs.ledger, fun p hp => (nomatch hp), fun p hp => nomatch hp⟩
  | walked herrors =>
    exact settled_drive setting _ rfl (Activity.spares herrors hs.ledger) hs.ledger
      Records.bound_bind

theorem settled_proceed (setting : Setting) (turn : Turn) (hpending : s.activity.pending = none)
    (hspares : s.activity.toPlan.Spares) (hspared : run.toStage.Spared)
    (hbound : turn.Bound run.records) : (s.proceed setting turn run).2.Settled := by
  cases turn with
  | goes c => exact settled_drive setting c hpending hspares hspared hbound
  | ends => exact settled_close setting none hpending hspares hspared fun w hw => nomatch hw
  | waits c operation prompt =>
    refine settled_close setting _ hpending hspares hspared fun w hw => ?_
    cases hw
    exact hbound

-- An answer to the operation that waits writes nothing under the key, and keeps its target bound.
theorem settled_answered {p : Pending} {op : Operation} {answer : Answer}
    {result : Except Failure Turn} (hs : s.Settled) (hp : s.activity.pending = some p)
    (hop : waiting? s.activity.toPlan p = some op)
    (hanswered : answered ⟨setting, s.activity.toPlan, op⟩ ⟨p.position, p.target, p.forks, true⟩
      answer (s.bind p.target).run = (result, run)) :
    run.toStage.Spared ∧ run.records.Bound p.target := by
  have hspares : op.Spares := (hs.spares p hp).of_order (waiting?_eq_some_iff.1 hop).1
  have hspared := preserves_answered (v := ⟨setting, s.activity.toPlan, op⟩) hspares.preserves
    ⟨p.position, p.target, p.forks, true⟩ answer (s.bind p.target).run hs.ledger
  have hbound := preserves_answered (v := ⟨setting, s.activity.toPlan, op⟩)
    (hspares.allows p.target).preserves ⟨p.position, p.target, p.forks, true⟩ answer
    (s.bind p.target).run Records.bound_bind
  rw [hanswered] at hspared hbound
  exact ⟨hspared, hbound⟩

theorem settled_resume (setting : Setting) (token : String) (answer : Answer) (hs : s.Settled) :
    (s.resume setting token answer).2.Settled := by
  have hresuming := s.resuming setting token answer
  generalize s.resume setting token answer = called at hresuming ⊢
  cases hresuming with
  | unasked | unknown | displaced => exact hs
  | @refused p op failure run hp _ hop hanswered =>
    obtain ⟨hspared, hbound⟩ := settled_answered hs hp hop hanswered
    refine ⟨hspared, fun q _ => hs.spares p hp, fun q hq => ?_⟩
    obtain rfl : p = q := Option.some.inj (hp.symm.trans hq)
    exact hbound
  | @taken p op turn run hp _ hop hanswered =>
    obtain ⟨hspared, hbound⟩ := settled_answered hs hp hop hanswered
    exact settled_proceed setting turn rfl (hs.spares p hp) hspared
      (bound_answered hbound hanswered)

-- What calls come to that start or resume an activity in which no pool has the key of the bound
-- target. The operations may be replaced by others without errors in between, and the world may
-- change.
inductive Reached : Session → Prop where
  | unasked {s : Session} : s.activity.pending = none →
    Dict.contains s.activity.ledger Records.targetKey = false → Reached s
  | started {s : Session} (setting : Setting) (origin : Option String) : Reached s →
    Reached (s.start setting origin).2
  | resumed {s : Session} (setting : Setting) (token : String) (answer : Answer) : Reached s →
    Reached (s.resume setting token answer).2
  | replaced {s : Session} (plan : Plan) :
    Activity.errors { s.activity with toPlan := plan } = [] → Reached s →
    Reached { s with activity := { s.activity with toPlan := plan } }
  | meanwhile {s : Session} (world : World) (dice : Dice) : Reached s →
    Reached { s with world, dice }

theorem Reached.settled (h : Reached s) : s.Settled := by
  induction h with
  | unasked hpending hledger =>
    exact ⟨hledger, fun p hp => by simp [hpending] at hp, fun p hp => by simp [hpending] at hp⟩
  | started setting origin _ ih => exact settled_start setting origin ih
  | resumed setting token answer _ ih => exact settled_resume setting token answer ih
  | replaced plan herrors _ ih =>
    exact ⟨ih.ledger, fun _ _ => Activity.spares herrors ih.ledger, ih.bound⟩
  | meanwhile world dice _ ih => exact ⟨ih.ledger, ih.spares, ih.bound⟩

-- An operation that does not accept an answer has only told that it started.
theorem answered_refused {v : Visit} {c : Cursor} {answer : Answer} {run' : Run}
    {failure : Failure} (hv : v.Failures fun f => ¬ f.IsRejection)
    (h : answered v c answer run = (.error failure, run')) :
    run' = v.announceStart c.targetId run := by
  simp only [answered] at h
  split at h
  · cases h
  · split at h
    · next id message run'' haccept =>
      cases h
      simp only [Run.act] at haccept
      rcases hrun : (v.accept answer).run (v.announceStart c.targetId run).toStage with
        ⟨result, stage⟩
      rw [hrun] at haccept
      cases haccept
      have hsame := Visit.rejectsFirst_accept hv answer _ _ _ hrun trivial
      rw [hsame]
    · cases h
    · cases h

-- A resume that fails leaves the activity and the world as they were, whatever it fails for.
theorem resume_failed {token : String} {answer : Answer} {failure : Failure} (hs : Reached s)
    (hkeeper : setting.keeper.NeverRejects) (hitems : setting.useItem.Ordinary)
    (hfail : s.resume setting token answer = (.error failure, s')) :
    s'.activity = s.activity ∧ s'.world = s.world := by
  have hresuming := s.resuming setting token answer
  rw [hfail] at hresuming
  cases hresuming with
  | unasked | unknown | displaced => exact ⟨rfl, rfl⟩
  | @refused p op failure run hp _ hop hanswered =>
    have hbind : s.bind p.target = s := by
      simp only [bind, (hs.settled.bound p hp).bind_eq]
    have hv : (Visit.mk setting s.activity.toPlan op).Failures fun f => ¬ f.IsRejection :=
      Visit.failures_ordinary hkeeper hitems
    rw [answered_refused hv hanswered, hbind]
    exact ⟨rfl, rfl⟩

-- A question about each of two goblins, which wants a choice for its answer.
def parting : Session where
  activity :=
    { id := "parting"
      operations := [
        { id := "each", kind := .target .each },
        { id := "ask", kind := .selectOption [⟨"Go", .null, none⟩] none }] }
  world := World.ofList [{ id := "g1", name := "Goblin" }, { id := "g2", name := "Goblin" }]
  dice := .highest

def bargain : Setting := { actor := "hero", targets := ["g1", "g2"] }

theorem resume_failed_parting :
    Reached (parting.start bargain none).2 ∧ ∃ failure s',
      (parting.start bargain none).2.resume bargain "T1" .acknowledge = (.error failure, s') ∧
      s'.activity = (parting.start bargain none).2.activity ∧
      s'.world = (parting.start bargain none).2.world := by
  have hreached : Reached (parting.start bargain none).2 := .started bargain none (.unasked rfl rfl)
  have hkeeper : bargain.keeper.NeverRejects := fun _ _ h => by simp [bargain] at h
  have hfails : ((parting.start bargain none).2.resume bargain "T1" .acknowledge).1.isOk =
      false := by cbv
  rcases hresume : (parting.start bargain none).2.resume bargain "T1" .acknowledge with
    ⟨result, s'⟩
  cases result with
  | ok report => simp [hresume, Except.isOk, Except.toBool] at hfails
  | error failure =>
    exact ⟨hreached, failure, s', rfl,
      resume_failed hreached hkeeper ItemRoutine.ordinary_consume hresume⟩

end Session

end Tabletop
