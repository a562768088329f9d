import Tabletop.Proofs.Document.Target
import Tabletop.Proofs.Session.Course
import Tabletop.Proofs.Session.Rejection
import Tabletop.Proofs.Session.Telling
import Tabletop.Proofs.Walk.Stops

-- The bound target at the operations that calls come to, and the targets that reports tell.
namespace Tabletop

namespace Stop

-- Whether the target of the cursor is the bound one before the stop, on the stage on which the
-- operation is carried out, and after the stop.
structure Bound (stop : Stop) : Prop where
  before : stop.before.records.Bound stop.cursor.target
  during : ∀ stage ∈ stop.stage?, stage.records.Bound stop.cursor.target
  after : stop.after.records.Bound stop.cursor.target

theorem bound_of_stage {stop : Stop} (hbefore : stop.before.records.Bound stop.cursor.target)
    (hstage : ∀ stage ∈ stop.stage?, stage.records = stop.before.records)
    (hafter : stop.after.records.Bound stop.cursor.target) : stop.Bound where
  before := hbefore
  during stage hfound := by
    rw [hstage stage hfound]
    exact hbefore
  after := hafter

theorem bound_ofAnswer {v : Visit} {c : Cursor} {answer : Answer} {run : Run}
    (hbefore : run.records.Bound c.target)
    (hafter : (Session.answered v c answer run).2.records.Bound c.target) :
    (ofAnswer v c answer run).Bound := by
  refine bound_of_stage hbefore (fun stage hstage => ?_) hafter
  by_cases hdismissed : answer = .dismiss
  · simp [ofAnswer, hdismissed] at hstage
  · obtain rfl : (v.announceStart c.targetId run).toStage = stage := by
      simpa [ofAnswer, hdismissed] using hstage
    rfl

-- The operation sees the target that is reported.
theorem Bound.seen {stop : Stop} (h : stop.Bound) : ∀ stage ∈ stop.stage?,
    stage.records.target? = stop.cursor.target.map Snapshot.settled ∧
    stage.records.target?.map Snapshot.id = stop.cursor.targetId := by
  intro stage hstage
  have htarget := (h.during stage hstage).target?_eq
  refine ⟨htarget, ?_⟩
  rw [htarget, Option.map_map]
  rfl

end Stop

namespace Run

variable {setting : Setting} {plan : Plan} {c : Cursor} {run : Run}

theorem bound_stops (hspares : plan.Spares) (h : run.records.Bound c.target) :
    ∀ stop ∈ run.stops setting plan c, stop.Bound := by
  intro stop hstop
  obtain ⟨place, hplace, hat⟩ := List.mem_filterMap.1 hstop
  obtain ⟨op, hop, rfl⟩ := Option.map_eq_some_iff.1 hat
  have hbound := (hspares.tells setting).places h place hplace
  exact Stop.bound_of_stage hbound (fun _ => Visit.records_stage?)
    (Visit.keeps_visit _ ((hspares.of_order hop).allows _) _ hbound)

end Run

-- The stops of a walk that goes on with a turn.
def Turn.stops (setting : Setting) (plan : Plan) (run : Run) : Turn → List Stop
  | .goes c => run.stops setting plan c
  | _ => []

namespace Session

-- The stops of a call: that of the answer, if one is given, and those of the walk.
def stops (setting : Setting) (s : Session) : Call → List Stop
  | .start origin =>
    if s.activity.errors.isEmpty then
      match s.opening? origin with
      | none => []
      | some position =>
        s.begun.run.stops setting s.activity.toPlan ⟨position, none, [], origin.isSome⟩
    else []
  | .continueFrom id =>
    match s.activity.position? id with
    | none => []
    | some position =>
      s.run.stops setting s.activity.toPlan ⟨position, s.activity.records.target?, [], true⟩
  | .resume token answer =>
    match s.activity.pending with
    | none => []
    | some p =>
      if p.token ≠ token then []
      else
        match waiting? s.activity.toPlan p with
        | none => []
        | some op =>
          let v := Visit.mk setting s.activity.toPlan op
          .ofAnswer v p.cursor answer (s.bind p.target).run ::
            match answered v p.cursor answer (s.bind p.target).run with
            | (.error _, _) => []
            | (.ok turn, run) => turn.stops setting s.activity.toPlan run

variable {setting : Setting} {s t : Session} {run : Run}

-- What is so of all visits of the operations of the plan, and of all answers to them, is so of all
-- stops of a call.
theorem forall_stops {P : Stop → Prop}
    (hvisit : ∀ op ∈ s.activity.operations, ∀ c run,
      P (.ofVisit ⟨setting, s.activity.toPlan, op⟩ c run))
    (hanswer : ∀ op ∈ s.activity.operations, ∀ c answer run,
      P (.ofAnswer ⟨setting, s.activity.toPlan, op⟩ c answer run)) (c : Call) :
    ∀ stop ∈ s.stops setting c, P stop := by
  cases c with
  | start origin =>
    simp only [stops]
    split
    · split
      · simp
      · exact Run.forall_stops hvisit
    · simp
  | continueFrom id =>
    simp only [stops]
    split
    · simp
    · exact Run.forall_stops hvisit
  | resume token answer =>
    simp only [stops]
    split
    · simp
    · split
      · simp
      · split
        · simp
        · next op hop =>
          have hmem := List.mem_of_getElem? (waiting?_eq_some_iff.1 hop).1
          rw [List.forall_mem_cons]
          refine ⟨hanswer op (List.mem_mergeSort.1 hmem) _ _ _, ?_⟩
          split
          · simp
          · next turn run _ =>
            cases turn with
            | goes c => exact Run.forall_stops hvisit
            | ends | waits => simp [Turn.stops]

/-! What is reported -/

theorem reports_close (setting : Setting) (s : Session) (wait : Option Wait) (run : Run) :
    (s.close setting wait run).1.steps = run.steps ∧
      (s.close setting wait run).1.halts = run.halts := by
  cases wait <;> exact ⟨rfl, rfl⟩

theorem reports_drive (setting : Setting) (c : Cursor) (run : Run) (s : Session) :
    (s.drive setting c run).1.steps =
      run.steps ++ (run.stops setting s.activity.toPlan c).flatMap Stop.steps ∧
    (s.drive setting c run).1.halts =
      run.halts ++ (run.stops setting s.activity.toPlan c).flatMap Stop.halts := by
  obtain ⟨hsteps, hhalts⟩ := s.reports_close setting (run.walk setting s.activity.toPlan c).1
    (run.walk setting s.activity.toPlan c).2
  rw [drive, hsteps, hhalts]
  exact Run.reports_walk setting s.activity.toPlan c run

theorem reports_proceed (setting : Setting) (turn : Turn) (run : Run) (s : Session) :
    (s.proceed setting turn run).1.steps =
      run.steps ++ (turn.stops setting s.activity.toPlan run).flatMap Stop.steps ∧
    (s.proceed setting turn run).1.halts =
      run.halts ++ (turn.stops setting s.activity.toPlan run).flatMap Stop.halts := by
  cases turn with
  | goes c => exact reports_drive setting c run s
  | ends => simp [proceed, close, Turn.stops]
  | waits => simp [proceed, close, Turn.stops]

theorem stops_resume {token : String} {answer : Answer} {p : Pending} {op : Operation}
    {turn : Turn} (hp : s.activity.pending = some p) (htoken : p.token = token)
    (hop : waiting? s.activity.toPlan p = some op)
    (hanswered : answered ⟨setting, s.activity.toPlan, op⟩ p.cursor answer (s.bind p.target).run =
      (.ok turn, run)) :
    s.stops setting (.resume token answer) =
      .ofAnswer ⟨setting, s.activity.toPlan, op⟩ p.cursor answer (s.bind p.target).run ::
        turn.stops setting s.activity.toPlan run := by
  simp only [stops, hp, htoken, hop, hanswered, ne_eq, not_true_eq_false, if_false]

-- A report tells what happened at the stops of its call, in order, and nothing else.
theorem reports_call {c : Call} {report : Report} {t : Session}
    (h : s.call setting c = (.ok report, t)) :
    report.steps = (s.stops setting c).flatMap Stop.steps ∧
      report.halts = (s.stops setting c).flatMap Stop.halts := by
  cases c with
  | start origin =>
    have hstarting := s.starting setting origin
    rw [call] at h
    rw [h] at hstarting
    cases hstarting with
    | @walked position herrors hposition =>
      simp only [stops, herrors, List.isEmpty_nil, if_true, hposition]
      exact reports_drive setting _ s.begun.run s.begun
  | continueFrom id =>
    have hcontinuing := s.continuing setting id
    rw [call] at h
    rw [h] at hcontinuing
    cases hcontinuing with
    | @walked position hposition =>
      simp only [stops, hposition]
      exact reports_drive setting _ s.run s.withoutPending
  | resume token answer =>
    have hresuming := s.resuming setting token answer
    rw [call] at h
    rw [h] at hresuming
    cases hresuming with
    | @taken p op turn run hp htoken hop hanswered =>
      have hfaithful := Stop.faithful_ofAnswer ⟨setting, s.activity.toPlan, op⟩ p.cursor answer
        (s.bind p.target).run
      have hafter : (Stop.ofAnswer ⟨setting, s.activity.toPlan, op⟩ p.cursor answer
          (s.bind p.target).run).after = run := congrArg Prod.snd hanswered
      have hsteps := hfaithful.steps_eq
      have hhalts := hfaithful.halts_eq
      rw [hafter] at hsteps hhalts
      obtain ⟨hproceed, hproceeds⟩ :=
        reports_proceed setting turn run (s.bind p.target).withoutPending
      rw [stops_resume hp htoken hop hanswered, List.flatMap_cons, List.flatMap_cons]
      exact ⟨hproceed.trans (by rw [hsteps]; rfl), hproceeds.trans (by rw [hhalts]; rfl)⟩

-- A report that tells of nothing that waits leaves no prompt.
theorem pending_of_over {c : Call} {report : Report} (h : s.call setting c = (.ok report, t))
    (hover : report.status = .completed ∨ report.status = .halted) : t.activity.pending = none := by
  obtain ⟨report', t', hcall, hreported, -⟩ | ⟨failure, t', hcall, -⟩ := call_cases setting s c
  · obtain ⟨rfl, rfl⟩ : report' = report ∧ t' = t := by simpa [h, eq_comm] using hcall
    cases hreported with
    | finished _ _ hpending => exact hpending
    | waiting p hstatus => simp [hstatus] at hover
  · simp [h] at hcall

/-! What is bound -/

-- Whether a deed starts or resumes the activity, or does nothing to it.
def Deed.Plays : Deed → Prop
  | .call _ (.start _) | .call _ (.resume ..) | .meanwhile .. => True
  | _ => False

theorem toPlan_perform {d : Deed} (hd : d.Plays) :
    (t.perform d).activity.toPlan = t.activity.toPlan := by
  cases d with
  | call setting c => exact toPlan_call t c
  | meanwhile => rfl
  | reset | clearPending | reload => cases hd

theorem Course.toPlan_eq (h : s.Course (fun _ d => d.Plays) t) :
    t.activity.toPlan = s.activity.toPlan :=
  h.keeps (P := fun t => t.activity.toPlan = s.activity.toPlan)
    (fun _ _ hd ht => (toPlan_perform hd).trans ht) rfl

-- If no target is bound in the end, this stays so however the activity is played on.
theorem told_perform {d : Deed} (hspares : t.activity.toPlan.Spares) (hd : d.Plays)
    (ht : t.Told (fun target r => r.Bound target) none) :
    (t.perform d).Told (fun target r => r.Bound target) none := by
  cases d with
  | call setting c =>
    cases c with
    | start origin =>
      rw [perform, call]
      obtain ⟨-, hsame⟩ | ⟨-, hstarted⟩ := told_start (hspares.tells setting) origin
      · rwa [hsame]
      · exact hstarted
    | continueFrom => cases hd
    | resume token answer => exact told_resume (hspares.tells setting) token answer ht
  | meanwhile => exact ht
  | reset | clearPending | reload => cases hd

-- Once an activity was started, no target is bound in the end.
theorem Course.told_of_start (hspares : s.activity.toPlan.Spares) (herrors : s.activity.errors = [])
    {origin : Option String} (h : (s.start setting origin).2.Course (fun _ d => d.Plays) t) :
    t.Told (fun target r => r.Bound target) none := by
  have hplan : (s.start setting origin).2.activity.toPlan = s.activity.toPlan :=
    toPlan_call s (.start origin)
  refine (h.keeps (P := fun t => t.activity.toPlan.Spares ∧
    t.Told (fun target r => r.Bound target) none) (fun t d hd ht => ?_) ⟨?_, ?_⟩).2
  · exact ⟨by rw [toPlan_perform hd]; exact ht.1, told_perform ht.1 hd ht.2⟩
  · rwa [hplan]
  · obtain ⟨hne, -⟩ | ⟨-, hstarted⟩ := told_start (hspares.tells setting) origin
    · exact absurd herrors hne
    · exact hstarted

theorem bound_turn {plan : Plan} (hspares : plan.Spares) {base : Option Snapshot} {turn : Turn}
    (h : turn.Told (fun target r => r.Bound target) base run.records) :
    ∀ stop ∈ turn.stops setting plan run, stop.Bound := by
  cases turn with
  | goes c => exact Run.bound_stops hspares h.1
  | ends | waits => simp [Turn.stops]

theorem bound_stops (hspares : s.activity.toPlan.Spares) {c : Call}
    (hc : (Deed.call setting c).Plays) : ∀ stop ∈ s.stops setting c, stop.Bound := by
  cases c with
  | start origin =>
    simp only [stops]
    split
    · split
      · simp
      · exact Run.bound_stops hspares Records.bound_bind
    · simp
  | continueFrom => cases hc
  | resume token answer =>
    simp only [stops]
    split
    · simp
    · next p _ =>
      split
      · simp
      · split
        · simp
        · next op hop =>
          rcases hanswered : answered ⟨setting, s.activity.toPlan, op⟩ p.cursor answer
            (s.bind p.target).run with ⟨result, run⟩
          obtain ⟨hkept, hturn⟩ := told_answered (hspares.tells setting) hop hanswered
          rw [List.forall_mem_cons]
          refine ⟨Stop.bound_ofAnswer Records.bound_bind ?_, ?_⟩
          · rwa [hanswered]
          · cases result with
            | error failure => simp
            | ok turn => exact bound_turn hspares (hturn turn rfl)

theorem faithful_stops (s : Session) (setting : Setting) (c : Call) :
    ∀ stop ∈ s.stops setting c, stop.Faithful :=
  forall_stops (fun _ _ _ _ => Stop.faithful_ofVisit _ _ _)
    (fun _ _ _ _ _ => Stop.faithful_ofAnswer _ _ _ _) c

-- In an activity without errors, and without a pool under the key of the bound target, the target
-- of the cursor is the bound one wherever the walk comes to an operation. The operation sees it, and
-- what is reported of the operation tells it. Nothing else is reported. Once the walk that a start
-- began is over, no target is bound.
theorem targets_bound {s t : Session} (herrors : s.activity.errors = [])
    (hledger : Dict.contains s.activity.ledger Records.targetKey = false)
    (ht : s.Course (fun _ d => d.Plays) t) {setting : Setting} {c : Call}
    (hc : (Deed.call setting c).Plays) :
    (∀ stop ∈ t.stops setting c, stop.Bound ∧ stop.Faithful ∧
      ∀ stage ∈ stop.stage?,
        stage.records.target? = stop.cursor.target.map Snapshot.settled ∧
        stage.records.target?.map Snapshot.id = stop.cursor.targetId) ∧
    (∀ report t', t.call setting c = (.ok report, t') →
      report.steps = (t.stops setting c).flatMap Stop.steps ∧
      report.halts = (t.stops setting c).flatMap Stop.halts ∧
      (report.status = .completed ∨ report.status = .halted → t'.activity.pending = none)) ∧
    ∀ setting' origin u, (s.start setting' origin).2.Course (fun _ d => d.Plays) u →
      u.activity.pending = none → u.activity.records.Bound none := by
  have hspares : s.activity.toPlan.Spares := Activity.spares herrors hledger
  have hplan : t.activity.toPlan.Spares := ht.toPlan_eq ▸ hspares
  refine ⟨fun stop hstop => ?_, fun report t' hcall => ?_, fun setting' origin u hu hpending => ?_⟩
  · have hbound := bound_stops hplan hc stop hstop
    exact ⟨hbound, t.faithful_stops setting c stop hstop, hbound.seen⟩
  · obtain ⟨hsteps, hhalts⟩ := reports_call hcall
    refine ⟨hsteps, hhalts, fun hover => ?_⟩
    exact pending_of_over hcall hover
  · exact (told_none hpending).1 (hu.told_of_start hspares herrors)

-- Each goblin is bound while the question is about it.
theorem targets_bound_parting :
    let asked := (parting.start bargain none).2
    let dismissal : Call := .resume "T1" .dismiss
    parting.activity.errors = [] ∧
    Dict.contains parting.activity.ledger Records.targetKey = false ∧
    parting.Course (fun _ d => d.Plays) asked ∧
    (asked.stops bargain dismissal).map (fun stop => (stop.op.id, stop.cursor.targetId)) =
      [("ask", some "g1"), ("ask", some "g2")] ∧
    (∀ stop ∈ asked.stops bargain dismissal, stop.Bound ∧ stop.Faithful) ∧
    ∀ u, asked.Course (fun _ d => d.Plays) u → u.activity.pending = none →
      u.activity.records.Bound none := by
  have herrors : parting.activity.errors = [] := by cbv
  have hcourse : parting.Course (fun _ d => d.Plays) (parting.start bargain none).2 :=
    .next (.call bargain (.start none)) trivial .here
  have hstops : ((parting.start bargain none).2.stops bargain (.resume "T1" .dismiss)).map
      (fun stop => (stop.op.id, stop.cursor.targetId)) =
      [("ask", some "g1"), ("ask", some "g2")] := by cbv
  have hplays : (Deed.call bargain (.resume "T1" .dismiss)).Plays := trivial
  obtain ⟨hbound, -, hover⟩ := targets_bound herrors rfl hcourse hplays
  exact ⟨herrors, rfl, hcourse, hstops,
    fun stop hstop => ⟨(hbound stop hstop).1, (hbound stop hstop).2.1⟩, hover bargain none⟩

end Session

end Tabletop
