import Tabletop.Proofs.Walk.Turns
import Tabletop.Session

-- What single calls do to a session, and what follows for sequences of calls.
namespace Tabletop

namespace Activity

variable {a : Activity}

theorem validate_of_errors_eq (h : a.errors = []) : a.validate = .ok a.diagnostics := by
  simp [validate, h]

theorem validate_of_errors_ne (h : a.errors ≠ []) :
    a.validate = .error (.invalid ("; ".intercalate a.errors)) := by
  simp [validate, h]

end Activity

-- A status that says that nothing is waiting, and whether any branch ended early.
def Report.Truthful (r : Report) : Prop :=
  r.status = if r.halts.isEmpty then .completed else .halted

theorem Report.truthful_iff (r : Report) :
    r.Truthful ↔ (r.status = .halted ↔ r.halts ≠ []) ∧ (r.status = .completed ↔ r.halts = []) := by
  rw [Truthful]
  by_cases hhalts : r.halts = []
  · simp only [hhalts, List.isEmpty_nil, if_true, ne_eq, not_true_eq_false, iff_false, iff_true]
    exact ⟨fun h => ⟨by simp [h], h⟩, And.right⟩
  · simp only [List.isEmpty_eq_false_iff.2 hhalts, hhalts, ne_eq, not_false_eq_true, iff_true,
      iff_false, Bool.false_eq_true, if_false]
    exact ⟨fun h => ⟨h, by simp [h]⟩, And.left⟩

theorem Report.Truthful.not_suspended {r : Report} (h : r.Truthful) : r.isSuspended = false := by
  rw [Truthful] at h
  by_cases hhalts : r.halts.isEmpty <;> simp [isSuspended, h, hhalts]

namespace Session

-- What a host can ask of a session.
inductive Call where
  | start (origin : Option String)
  | continueFrom (id : String)
  | resume (token : String) (answer : Answer)

def call (setting : Setting) (s : Session) : Call → Except Failure Report × Session
  | .start origin => s.start setting origin
  | .continueFrom id => s.continueFrom setting id
  | .resume token answer => s.resume setting token answer

-- The session after some calls, each of them in circumstances of its own.
def after (s : Session) : List (Setting × Call) → Session
  | [] => s
  | (setting, c) :: rest => (s.call setting c).2.after rest

-- How a session over a plan stands once a walk has reported, where so many tickets were issued
-- before. A walk that is over leaves no prompt. One that waits leaves that of the next ticket, at
-- an operation that is still in its place.
inductive Reported (setting : Setting) (plan : Plan) (issued : Nat) : Report → Session → Prop where
  | finished {report : Report} {s : Session} : report.Truthful →
    s.activity.toPlan = plan → s.activity.pending = none → s.issued = issued →
    Reported setting plan issued report s
  | waiting {report : Report} {s : Session} (p : Pending) :
    report.status = .suspended p.token p.prompt → s.activity.toPlan = plan →
    s.activity.pending = some p → p.token = (setting.tickets issued).token →
    (waiting? plan p).isSome → s.issued = issued + 1 → Reported setting plan issued report s

variable {setting : Setting} {plan : Plan} {issued : Nat}

theorem waiting?_eq_some_iff {p : Pending} {op : Operation} :
    waiting? plan p = some op ↔ plan.order[p.position]? = some op ∧ op.id = p.operation := by
  simp [waiting?, Option.filter_eq_some_iff]

theorem reported_close (wait : Option Wait) (run : Run) (s : Session)
    (hplan : s.activity.toPlan = plan) (hissued : s.issued = issued)
    (hpending : s.activity.pending = none)
    (hplace : ∀ w, wait = some w →
      ∃ op, plan.order[w.cursor.position]? = some op ∧ op.id = w.operation) :
    Reported setting plan issued (s.close setting wait run).1 (s.close setting wait run).2 := by
  subst hplan hissued
  cases wait with
  | none =>
    refine .finished ?_ rfl hpending rfl
    by_cases hhalts : run.halts.isEmpty <;> simp [close, Report.Truthful, hhalts]
  | some w =>
    obtain ⟨op, hop, hid⟩ := hplace w rfl
    refine .waiting _ rfl rfl rfl rfl ?_ rfl
    simp [waiting?, hop, hid]

theorem reported_drive (c : Cursor) (run : Run) (s : Session)
    (hplan : s.activity.toPlan = plan) (hissued : s.issued = issued)
    (hpending : s.activity.pending = none) :
    Reported setting plan issued (s.drive setting c run).1 (s.drive setting c run).2 :=
  reported_close _ _ s hplan hissued hpending fun w hw =>
    hplan ▸ Run.walk_waits _ _ c run w hw

-- An operation that waits after an answer is the one that was answered.
theorem answered_waits {v : Visit} {c c' : Cursor} {answer : Answer} {run run' : Run}
    {operation : String} {prompt : Prompt}
    (h : answered v c answer run = (.ok (.waits c' operation prompt), run')) :
    c' = c ∧ operation = v.op.id := by
  have hafter : ∀ destination moved, (afterAnswer v c destination moved).1 =
      .waits c' operation prompt → c' = c ∧ operation = v.op.id := by
    rintro destination ⟨move, run⟩ h
    simp only [afterAnswer] at h
    split at h
    · split at h <;> cases h
    · next move' _ _ hm =>
      cases move' <;> cases h
      exact ⟨rfl, rfl⟩
  simp only [answered] at h
  split at h
  · cases h
  · split at h
    · cases h
    · cases h
    · simp only [Prod.mk.injEq, Except.ok.injEq] at h
      exact hafter _ _ h.1

-- No other failure comes of an answer than that it is not accepted.
theorem answered_error {v : Visit} {c : Cursor} {answer : Answer} {run run' : Run}
    {failure : Failure} (h : answered v c answer run = (.error failure, run')) :
    ∃ id message, failure = .rejected id message := by
  simp only [answered] at h
  split at h
  · cases h
  · split at h
    · next id message _ _ => cases h; exact ⟨id, message, rfl⟩
    · cases h
    · cases h

theorem reported_proceed (turn : Turn) (run : Run) (s : Session)
    (hplan : s.activity.toPlan = plan) (hissued : s.issued = issued)
    (hpending : s.activity.pending = none)
    (hplace : ∀ c operation prompt, turn = .waits c operation prompt →
      ∃ op, plan.order[c.position]? = some op ∧ op.id = operation) :
    Reported setting plan issued (s.proceed setting turn run).1
      (s.proceed setting turn run).2 := by
  cases turn with
  | goes c => exact reported_drive c run s hplan hissued hpending
  | ends => exact reported_close none run s hplan hissued hpending fun w hw => by cases hw
  | waits c operation prompt =>
    refine reported_close _ run s hplan hissued hpending fun w hw => ?_
    cases hw
    exact hplace c operation prompt rfl

-- The session as its invocation starts.
def begun (s : Session) : Session :=
  s.fresh.emit (.runStarted s.activity.id s.activity.operations.length)

-- The position at which an invocation starts, if there is such an operation.
def opening? (s : Session) : Option String → Option Nat
  | none => some 0
  | some id => s.activity.position? id

-- What comes of a start.
inductive Starting (setting : Setting) (s : Session) (origin : Option String) :
    Except Failure Report × Session → Prop where
  | invalid : s.activity.errors ≠ [] →
    Starting setting s origin (.error (.invalid ("; ".intercalate s.activity.errors)), s)
  | unknown {id : String} : s.activity.errors = [] → origin = some id →
    s.activity.position? id = none →
    Starting setting s origin (.error (unknownOperation id), s.fresh)
  | walked {position : Nat} : s.activity.errors = [] → s.opening? origin = some position →
    Starting setting s origin
      ((s.begun.drive setting ⟨position, none, [], origin.isSome⟩ s.begun.run).map .ok id)

theorem starting (setting : Setting) (s : Session) (origin : Option String) :
    s.Starting setting origin (s.start setting origin) := by
  unfold start
  by_cases herrors : s.activity.errors = []
  · rw [Activity.validate_of_errors_eq herrors]
    cases origin with
    | none => exact .walked herrors rfl
    | some id =>
      dsimp only
      split
      · next position hposition => exact .walked herrors hposition
      · next hunknown => exact .unknown herrors rfl hunknown
  · rw [Activity.validate_of_errors_ne herrors]
    exact .invalid herrors

theorem start_of_walk {s : Session} {wait : Option Wait} {run : Run} (herrors : s.activity.errors = [])
    (hwalk : s.begun.run.walk setting s.activity.toPlan ⟨0, none, [], false⟩ = (wait, run)) :
    s.start setting none = (s.begun.close setting wait run).map .ok id := by
  have hstarting := s.starting setting none
  generalize s.start setting none = called at hstarting ⊢
  cases hstarting with
  | invalid hinvalid => exact absurd herrors hinvalid
  | unknown _ horigin => cases horigin
  | walked _ hposition =>
    cases hposition
    have hplan : s.begun.activity.toPlan = s.activity.toPlan := rfl
    rw [drive, hplan, Option.isSome_none, hwalk]

-- Where the first operation ends the branch, nothing else is done.
theorem start_of_ended {s : Session} {op : Operation} {run : Run} (herrors : s.activity.errors = [])
    (hop : s.activity.toPlan.order[0]? = some op)
    (hvisit : (Visit.mk setting s.activity.toPlan op).visit none false s.begun.run = (.ended, run)) :
    s.start setting none = (s.begun.close setting none run).map .ok id := by
  refine start_of_walk herrors ?_
  rw [Run.walk_of_goes (Run.next_of_visit (c := ⟨0, none, [], false⟩) hop hvisit)]
  exact Run.walk_ended setting s.activity.toPlan none false run

-- What comes of going on from an operation.
inductive Continuing (setting : Setting) (s : Session) (origin : String) :
    Except Failure Report × Session → Prop where
  | unknown : s.activity.position? origin = none →
    Continuing setting s origin (.error (unknownOperation origin), s)
  | walked {position : Nat} : s.activity.position? origin = some position →
    Continuing setting s origin
      ((s.withoutPending.drive setting ⟨position, s.activity.records.target?, [], true⟩
        s.run).map .ok id)

theorem continuing (setting : Setting) (s : Session) (id : String) :
    s.Continuing setting id (s.continueFrom setting id) := by
  unfold continueFrom
  split
  · next hunknown => exact .unknown hunknown
  · next position hposition => exact .walked hposition

-- An answer with the token of the prompt reaches the operation that waits.
theorem resume_waiting {s : Session} {p : Pending} {op : Operation} (answer : Answer)
    (hp : s.activity.pending = some p) (hop : waiting? s.activity.toPlan p = some op) :
    s.resume setting p.token answer =
      match answered ⟨setting, s.activity.toPlan, op⟩ ⟨p.position, p.target, p.forks, true⟩ answer
        (s.bind p.target).run with
      | (.error failure, run) => (.error failure, (s.bind p.target).keep run)
      | (.ok turn, run) =>
        ((s.bind p.target).withoutPending.proceed setting turn run).map .ok id := by
  simp only [resume, hp, ne_eq, not_true_eq_false, if_false, hop]
  rfl

-- What comes of an answer.
inductive Resuming (setting : Setting) (s : Session) (token : String) (answer : Answer) :
    Except Failure Report × Session → Prop where
  | unasked : s.activity.pending = none →
    Resuming setting s token answer (.error .nothingPending, s)
  | unknown {p : Pending} : s.activity.pending = some p → p.token ≠ token →
    Resuming setting s token answer (.error (.unknownToken token), s)
  | displaced {p : Pending} : s.activity.pending = some p → p.token = token →
    waiting? s.activity.toPlan p = none → Resuming setting s token answer (.error (displaced p), s)
  | refused {p : Pending} {op : Operation} {failure : Failure} {run : Run} :
    s.activity.pending = some p → p.token = token → waiting? s.activity.toPlan p = some op →
    answered ⟨setting, s.activity.toPlan, op⟩ ⟨p.position, p.target, p.forks, true⟩ answer
      (s.bind p.target).run = (.error failure, run) →
    Resuming setting s token answer (.error failure, (s.bind p.target).keep run)
  | taken {p : Pending} {op : Operation} {turn : Turn} {run : Run} :
    s.activity.pending = some p → p.token = token → waiting? s.activity.toPlan p = some op →
    answered ⟨setting, s.activity.toPlan, op⟩ ⟨p.position, p.target, p.forks, true⟩ answer
      (s.bind p.target).run = (.ok turn, run) →
    Resuming setting s token answer
      (((s.bind p.target).withoutPending.proceed setting turn run).map .ok id)

theorem resuming (setting : Setting) (s : Session) (token : String) (answer : Answer) :
    s.Resuming setting token answer (s.resume setting token answer) := by
  cases hp : s.activity.pending with
  | none =>
    simp only [resume, hp]
    exact .unasked hp
  | some p =>
    by_cases htoken : p.token = token
    · subst htoken
      cases hop : waiting? s.activity.toPlan p with
      | none =>
        simp only [resume, hp, ne_eq, not_true_eq_false, if_false, hop]
        exact .displaced hp rfl hop
      | some op =>
        rw [resume_waiting answer hp hop]
        split
        · next failure run hanswered => exact .refused hp rfl hop hanswered
        · next turn run hanswered => exact .taken hp rfl hop hanswered
    · simp only [resume, hp, ne_eq, htoken, not_false_eq_true, if_true]
      exact .unknown hp htoken

-- A call reports or fails. The one kind of call that reports for a token is an answer to the prompt
-- of this token. A call that fails leaves the prompt as it is or drops it.
theorem call_cases (setting : Setting) (s : Session) (c : Call) :
    (∃ report s', s.call setting c = (.ok report, s') ∧
      Reported setting s.activity.toPlan s.issued report s' ∧
      ∀ token answer, c = .resume token answer →
        ∃ p, s.activity.pending = some p ∧ p.token = token) ∨
    (∃ failure s', s.call setting c = (.error failure, s') ∧
      s'.activity.toPlan = s.activity.toPlan ∧ s'.issued = s.issued ∧
      (s'.activity.pending = s.activity.pending ∨ s'.activity.pending = none)) := by
  cases c with
  | start origin =>
    have hstarting := s.starting setting origin
    rw [call]
    generalize s.start setting origin = called at hstarting ⊢
    cases hstarting with
    | invalid => exact .inr ⟨_, _, rfl, rfl, rfl, .inl rfl⟩
    | unknown => exact .inr ⟨_, _, rfl, rfl, rfl, .inr rfl⟩
    | walked => exact .inl ⟨_, _, rfl, reported_drive _ _ _ rfl rfl rfl, by simp⟩
  | continueFrom id =>
    have hcontinuing := s.continuing setting id
    rw [call]
    generalize s.continueFrom setting id = called at hcontinuing ⊢
    cases hcontinuing with
    | unknown => exact .inr ⟨_, _, rfl, rfl, rfl, .inl rfl⟩
    | walked => exact .inl ⟨_, _, rfl, reported_drive _ _ _ rfl rfl rfl, by simp⟩
  | resume token answer =>
    have hresuming := s.resuming setting token answer
    rw [call]
    generalize s.resume setting token answer = called at hresuming ⊢
    cases hresuming with
    | unasked | unknown | displaced | refused => exact .inr ⟨_, _, rfl, rfl, rfl, .inl rfl⟩
    | @taken p op turn run hp htoken hop hanswered =>
      refine .inl ⟨_, _, rfl, reported_proceed turn run _ rfl rfl rfl ?_, ?_⟩
      · intro c operation prompt hturn
        obtain ⟨rfl, rfl⟩ := answered_waits (hturn ▸ hanswered)
        exact ⟨op, (waiting?_eq_some_iff.1 hop).1, rfl⟩
      · intro token' answer' hcall
        cases hcall
        exact ⟨p, hp, htoken⟩

theorem toPlan_call (s : Session) (c : Call) :
    (s.call setting c).2.activity.toPlan = s.activity.toPlan := by
  obtain ⟨report, s', hcall, hreported, -⟩ | ⟨failure, s', hcall, hplan, -⟩ :=
    call_cases setting s c
  · rw [hcall]
    cases hreported <;> assumption
  · rw [hcall]
    exact hplan

end Session

end Tabletop
