import Tabletop.Proofs.Session.Suspension
import Tabletop.Proofs.Walk.Chronicle

-- What a host hears of a call, and what the call reports. The last event alone tells that the call
-- is over, and how.
namespace Tabletop.Session

-- Whether a host that heard these earlier events has heard since then what a call reports, and at
-- last how it ended.
structure Heard (earlier : List Event) (id : String) (report : Report) (s : Session)
    (told : List Event) (last : Event) : Prop where
  events : s.events = earlier ++ told ++ [last]
  chronicle : Chronicle told report.steps report.halts
  finished : report.isSuspended = false → last = .runFinished id (!report.halts.isEmpty)
  suspended : ∀ token prompt, report.status = .suspended token prompt →
    ∃ p, s.activity.pending = some p ∧ p.token = token ∧ last = .suspended p.operation token

variable {setting : Setting} {s s' : Session} {earlier : List Event} {run : Run} {report : Report}
  {c : Call}

theorem Heard.last {id : String} {told : List Event} {last : Event}
    (h : Heard earlier id report s told last) : last.IsStep = false ∧ last.halt? = none := by
  cases hstatus : report.status with
  | suspended token prompt =>
    obtain ⟨p, -, -, rfl⟩ := h.suspended token prompt hstatus
    exact ⟨rfl, rfl⟩
  | completed | halted =>
    rw [h.finished (by simp [Report.isSuspended, hstatus])]
    exact ⟨rfl, rfl⟩

theorem heard_close (setting : Setting) (wait : Option Wait) (h : run.Accords earlier) :
    ∃ told last, Heard earlier s.activity.id (s.close setting wait run).1
      (s.close setting wait run).2 told last := by
  obtain ⟨told, hevents, hchronicle⟩ := h
  cases wait with
  | none =>
    have hstatus : (s.close setting none run).1.isSuspended = false := by
      by_cases hhalts : run.halts.isEmpty <;> simp [close, Report.isSuspended, hhalts]
    refine ⟨told, .runFinished s.activity.id (!run.halts.isEmpty),
      congrArg (· ++ _) hevents, hchronicle, fun _ => rfl, fun token prompt hsuspended => ?_⟩
    simp [Report.isSuspended, hsuspended] at hstatus
  | some w =>
    refine ⟨told, .suspended w.operation (setting.tickets s.issued).token,
      congrArg (· ++ _) hevents, hchronicle, fun hfinished => ?_, fun token prompt hsuspended => ?_⟩
    · cases hfinished
    · cases hsuspended
      exact ⟨_, rfl, rfl, rfl⟩

theorem heard_drive (c : Cursor) (h : run.Accords earlier) :
    ∃ told last, Heard earlier s.activity.id (s.drive setting c run).1 (s.drive setting c run).2
      told last :=
  heard_close setting _ (h.walk c)

theorem heard_proceed (turn : Turn) (h : run.Accords earlier) :
    ∃ told last, Heard earlier s.activity.id (s.proceed setting turn run).1
      (s.proceed setting turn run).2 told last := by
  cases turn with
  | goes c => exact heard_drive c h
  | ends => exact heard_close setting none h
  | waits c operation prompt => exact heard_close setting _ h

theorem accords_answered {v : Visit} {c : Cursor} {answer : Answer} {run' : Run}
    {result : Except Failure Turn} (hanswered : answered v c answer run = (result, run'))
    (h : run.Accords earlier) : run'.Accords earlier := by
  have hrelates := (v.relates_accords c.targetId earlier).answered (c := c) answer run h
  rwa [hanswered] at hrelates

-- A session that has nothing to report has told nothing since.
theorem accords_run (s : Session) {told : List Event} (htold : ∀ e ∈ told, e.IsAside)
    (hevents : s.events = earlier ++ told) : s.run.Accords earlier :=
  ⟨told, hevents, .aside htold⟩

theorem heard_call (h : s.call setting c = (.ok report, s')) :
    ∃ told last, Heard s.events s.activity.id report s' told last := by
  cases c with
  | start origin =>
    have hstarting := s.starting setting origin
    rw [call] at h
    rw [h] at hstarting
    generalize hcalled : (Except.ok report, s') = called at hstarting
    cases hstarting with
    | invalid => cases hcalled
    | unknown => cases hcalled
    | walked =>
      cases hcalled
      have hbegun : s.begun.run.Accords s.events :=
        accords_run s.begun (List.forall_mem_singleton.2 ⟨rfl, rfl, id⟩) rfl
      exact heard_drive (s := s.begun) _ hbegun
  | continueFrom id =>
    have hcontinuing := s.continuing setting id
    rw [call] at h
    rw [h] at hcontinuing
    generalize hcalled : (Except.ok report, s') = called at hcontinuing
    cases hcontinuing with
    | unknown => cases hcalled
    | walked =>
      cases hcalled
      exact heard_drive (s := s.withoutPending) _
        (accords_run s (List.forall_mem_nil _) (List.append_nil _).symm)
  | resume token answer =>
    have hresuming := s.resuming setting token answer
    rw [call] at h
    rw [h] at hresuming
    generalize hcalled : (Except.ok report, s') = called at hresuming
    cases hresuming with
    | unasked | unknown | displaced | refused => cases hcalled
    | @taken p op turn run hp htoken hop hanswered =>
      cases hcalled
      have hbound : (s.bind p.target).run.Accords s.events :=
        accords_run _ (List.forall_mem_nil _) (List.append_nil _).symm
      exact heard_proceed (s := (s.bind p.target).withoutPending) turn
        (accords_answered hanswered hbound)

-- A host that reads the events of a call that reports learns what the report says, and in the same
-- order. The last event alone tells that the call is over: that a prompt is out, or that everything
-- is done and whether any branch halted.
theorem call_chronicle (h : s.call setting c = (.ok report, s')) :
    ∃ told last, s'.events = s.events ++ (told ++ [last]) ∧
      List.Forall₂ Event.Enters ((told ++ [last]).filter Event.IsStep) report.steps ∧
      (told ++ [last]).filterMap Event.halt? = report.halts ∧
      (∀ e ∈ told, ¬ e.Closes) ∧
      (∀ token prompt, report.status = .suspended token prompt →
        ∃ p, s'.activity.pending = some p ∧ p.token = token ∧ last = .suspended p.operation token) ∧
      (report.isSuspended = false → last = .runFinished s.activity.id (!report.halts.isEmpty)) := by
  obtain ⟨told, last, hheard⟩ := heard_call h
  obtain ⟨hsteps, hhalts, hunclosed⟩ := hheard.chronicle
  obtain ⟨hstep, hhalt⟩ := hheard.last
  refine ⟨told, last, ?_, ?_, ?_, hunclosed, hheard.suspended, hheard.finished⟩
  · rw [hheard.events, List.append_assoc]
  · rwa [List.filter_append, List.filter_singleton, hstep, cond_false, List.append_nil]
  · rw [List.filterMap_append, hhalts, List.filterMap_cons_none hhalt, List.filterMap_nil,
      List.append_nil]

-- Whoever asks for the way.
def astray : Session := crossroads.after [({ actor := "hero" }, .start none)]

-- To dismiss the question ends the only branch there is.
theorem call_chronicle_astray :
    ∃ report s' told, astray.call { actor := "hero" } (.resume "T1" .dismiss) = (.ok report, s') ∧
      report.halts ≠ [] ∧
      s'.events = astray.events ++ (told ++ [.runFinished astray.activity.id true]) ∧
      told.filterMap Event.halt? = report.halts := by
  have hresult : (astray.call { actor := "hero" } (.resume "T1" .dismiss)).1.toOption.map
      (fun report => (report.halts.isEmpty, report.isSuspended)) = some (false, false) := by cbv
  rcases hcall : astray.call { actor := "hero" } (.resume "T1" .dismiss) with
    ⟨failure | report, s'⟩
  · simp [hcall, Except.toOption] at hresult
  · obtain ⟨hhalts, hfinished⟩ : report.halts.isEmpty = false ∧ report.isSuspended = false := by
      simpa [hcall, Except.toOption] using hresult
    obtain ⟨told, last, hevents, -, htold, -, -, hlast⟩ := call_chronicle hcall
    rw [hlast hfinished, hhalts] at hevents htold
    refine ⟨report, s', told, rfl, List.isEmpty_eq_false_iff.1 hhalts, hevents, ?_⟩
    simpa [List.filterMap_cons, Event.halt?] using htold

end Tabletop.Session
