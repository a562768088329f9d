import Tabletop.Proofs.Session.Targets

-- What calls do to the stage of a session, told by their stops.
namespace Tabletop

-- Whether an event tells that a call begins or is over.
def Event.Frames : Event → Prop
  | .runStarted .. => True
  | .runFinished .. => True
  | .suspended .. => True
  | _ => False

-- Whether a relation between stops and the stages before and after them holds of all single stops
-- over a plan, goes on from stops to later ones, and allows all that a call does between its stops.
structure Traces (setting : Setting) (plan : Plan) (M : List Stop → Stage → Stage → Prop) :
    Prop where
  refl : ∀ s, M [] s s
  trans : ∀ {stops more : List Stop} {s t u : Stage}, M stops s t → M more t u →
    M (stops ++ more) s u
  visits : ∀ op ∈ plan.operations, ∀ c (run : Run),
    M [.ofVisit ⟨setting, plan, op⟩ c run] run.toStage
      ((Visit.mk setting plan op).visit c.targetId c.selected run).2.toStage
  answers : ∀ op ∈ plan.operations, ∀ c answer (run : Run),
    M [.ofAnswer ⟨setting, plan, op⟩ c answer run] run.toStage
      (Session.answered ⟨setting, plan, op⟩ c answer run).2.toStage
  binds : ∀ (s : Stage) target, M [] s { s with records := s.records.bind target }
  frames : ∀ (s : Stage) (e : Event), e.Frames → M [] s (s.tell e)

namespace Run

variable {setting : Setting} {plan : Plan} {M : List Stop → Stage → Stage → Prop}

-- A walk stops at its cursor, unless that is at the end of a branch, and goes on from there.
theorem stops_eq (setting : Setting) (plan : Plan) (c : Cursor) (run : Run) :
    run.stops setting plan c = (stop? setting plan ⟨c, run⟩).toList ++
      (run.next setting plan c).1.stops setting plan (run.next setting plan c).2 := by
  rcases hturn : run.next setting plan c with ⟨turn, run'⟩
  cases turn with
  | goes c' => exact stops_of_goes hturn
  | ends => simp [stops_of_ends hturn, Turn.stops]
  | waits c' operation prompt => simp [stops_of_waits hturn, Turn.stops]

theorem stop?_of_order {op : Operation} {c : Cursor} (run : Run)
    (h : plan.order[c.position]? = some op) :
    stop? setting plan ⟨c, run⟩ = some (.ofVisit ⟨setting, plan, op⟩ c run) := by
  simp [stop?, h]

theorem stop?_of_end {c : Cursor} (run : Run) (h : plan.order[c.position]? = none) :
    stop? setting plan ⟨c, run⟩ = none := by
  simp [stop?, h]

theorem traces_next (hM : Traces setting plan M) (c : Cursor) (run : Run) :
    M (stop? setting plan ⟨c, run⟩).toList run.toStage (run.next setting plan c).2.toStage := by
  cases hop : plan.order[c.position]? with
  | some op =>
    rw [next_of_order hop, stop?_of_order run hop]
    exact hM.visits op (List.mem_mergeSort.1 (List.mem_of_getElem? hop)) c run
  | none =>
    rw [next_of_end hop, stop?_of_end run hop, branch]
    split
    · exact hM.binds _ _
    · split
      · exact hM.binds _ _
      · exact hM.refl _

theorem traces_walk (hM : Traces setting plan M) (c : Cursor) (run : Run) :
    M (run.stops setting plan c) run.toStage (run.walk setting plan c).2.toStage := by
  induction c, run using walk_induction setting plan with
  | goes c run c' run' hturn ih =>
    have hnext := traces_next hM c run
    rw [hturn] at hnext
    rw [stops_of_goes hturn]
    exact hM.trans hnext ih
  | ends c run run' hturn =>
    have hnext := traces_next hM c run
    rw [hturn] at hnext
    rwa [stops_of_ends hturn]
  | waits c run c' operation prompt run' hturn =>
    have hnext := traces_next hM c run
    rw [hturn] at hnext
    rwa [stops_of_waits hturn]

end Run

namespace Session

variable {setting : Setting} {s : Session} {M : List Stop → Stage → Stage → Prop}

theorem traces_close {plan : Plan} (hM : Traces setting plan M) (s : Session) (wait : Option Wait)
    (run : Run) : M [] run.toStage (s.close setting wait run).2.run.toStage := by
  cases wait with
  | none => exact hM.frames run.toStage (.runFinished ..) trivial
  | some w => exact hM.frames run.toStage (.suspended ..) trivial

theorem traces_drive (hM : Traces setting s.activity.toPlan M) (c : Cursor) (run : Run) :
    M (run.stops setting s.activity.toPlan c) run.toStage
      (s.drive setting c run).2.run.toStage := by
  have hclosed := hM.trans (Run.traces_walk hM c run)
    (traces_close hM s (run.walk setting s.activity.toPlan c).1 _)
  rwa [List.append_nil] at hclosed

theorem traces_proceed (hM : Traces setting s.activity.toPlan M) (turn : Turn) (run : Run) :
    M (turn.stops setting s.activity.toPlan run) run.toStage
      (s.proceed setting turn run).2.run.toStage := by
  cases turn with
  | goes c => exact traces_drive hM c run
  | ends => exact traces_close hM s none run
  | waits c operation prompt => exact traces_close hM s _ run

theorem stops_refused {token : String} {answer : Answer} {p : Pending} {op : Operation}
    {failure : Failure} {run : Run} (hp : s.activity.pending = some p) (htoken : p.token = token)
    (hop : waiting? s.activity.toPlan p = some op)
    (hanswered : answered ⟨setting, s.activity.toPlan, op⟩ p.cursor answer (s.bind p.target).run =
      (.error failure, run)) :
    s.stops setting (.resume token answer) =
      [.ofAnswer ⟨setting, s.activity.toPlan, op⟩ p.cursor answer (s.bind p.target).run] := by
  simp only [stops, hp, htoken, hop, hanswered, ne_eq, not_true_eq_false, if_false]

-- What a relation says of single stops it says of whole calls, whether they report or fail.
theorem traces_call (hM : Traces setting s.activity.toPlan M) (c : Call) :
    M (s.stops setting c) s.run.toStage (s.call setting c).2.run.toStage := by
  cases c with
  | start origin =>
    have hfresh : M [] s.run.toStage s.fresh.run.toStage := hM.binds _ none
    have hstarting := s.starting setting origin
    rw [call]
    generalize s.start setting origin = called at hstarting ⊢
    cases hstarting with
    | invalid herrors =>
      simp only [stops, List.isEmpty_eq_false_iff.2 herrors, Bool.false_eq_true, if_false]
      exact hM.refl _
    | unknown herrors horigin hunknown =>
      subst horigin
      simp only [stops, herrors, List.isEmpty_nil, if_true, opening?, hunknown]
      exact hfresh
    | @walked position herrors hposition =>
      have hbegun : M [] s.fresh.run.toStage s.begun.run.toStage :=
        hM.frames s.fresh.run.toStage (.runStarted ..) trivial
      simp only [stops, herrors, List.isEmpty_nil, if_true, hposition]
      exact hM.trans (hM.trans hfresh hbegun) (traces_drive (s := s.begun) hM _ s.begun.run)
  | continueFrom id =>
    have hcontinuing := s.continuing setting id
    rw [call]
    generalize s.continueFrom setting id = called at hcontinuing ⊢
    cases hcontinuing with
    | unknown hunknown =>
      simp only [stops, hunknown]
      exact hM.refl _
    | @walked position hposition =>
      simp only [stops, hposition]
      exact traces_drive (s := s.withoutPending) hM _ s.run
  | resume token answer =>
    have hresuming := s.resuming setting token answer
    rw [call]
    generalize s.resume setting token answer = called at hresuming ⊢
    cases hresuming with
    | unasked hp =>
      simp only [stops, hp]
      exact hM.refl _
    | unknown hp htoken =>
      simp only [stops, hp, ne_eq, htoken, not_false_eq_true, if_true]
      exact hM.refl _
    | displaced hp htoken hop =>
      simp only [stops, hp, htoken, ne_eq, not_true_eq_false, if_false, hop]
      exact hM.refl _
    | @refused p op failure run hp htoken hop hanswered =>
      have hbind : M [] s.run.toStage (s.bind p.target).run.toStage := hM.binds _ p.target
      have hmem := List.mem_mergeSort.1 (List.mem_of_getElem? (waiting?_eq_some_iff.1 hop).1)
      have hanswer := hM.answers op hmem ⟨p.position, p.target, p.forks, true⟩ answer
        (s.bind p.target).run
      rw [hanswered] at hanswer
      rw [stops_refused hp htoken hop hanswered]
      exact hM.trans hbind hanswer
    | @taken p op turn run hp htoken hop hanswered =>
      have hbind : M [] s.run.toStage (s.bind p.target).run.toStage := hM.binds _ p.target
      have hmem := List.mem_mergeSort.1 (List.mem_of_getElem? (waiting?_eq_some_iff.1 hop).1)
      have hanswer := hM.answers op hmem ⟨p.position, p.target, p.forks, true⟩ answer
        (s.bind p.target).run
      rw [hanswered] at hanswer
      rw [stops_resume hp htoken hop hanswered]
      exact hM.trans (hM.trans hbind hanswer)
        (traces_proceed (s := (s.bind p.target).withoutPending) hM turn run)

end Session

end Tabletop
