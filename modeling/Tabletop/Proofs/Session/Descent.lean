import Tabletop.Proofs.Records
import Tabletop.Proofs.Session.Telling
import Tabletop.Proofs.Walk.Descent

-- Where a session waits after an answer, compared with where it waited before. There is less to
-- come, unless the answer leads back to where the walk has been.
namespace Tabletop

namespace Session

variable {setting : Setting} {plan : Plan} {s : Session} {p : Pending} {op : Operation}
  {answer : Answer} {run : Run}

-- Whether an operation of the plan waits, in its place, for the answer to what it asked.
structure Awaits (setting : Setting) (plan : Plan) (s : Session) (p : Pending) (op : Operation) :
    Prop where
  toPlan_eq : s.activity.toPlan = plan
  pending : s.activity.pending = some p
  place : waiting? plan p = some op
  asks : (Visit.mk setting plan op).Asks p.prompt

-- Whether nothing waits after a report, or an operation does for which this holds.
def Stands (setting : Setting) (plan : Plan) (P : Pending → Prop) (report : Report) (s : Session) :
    Prop :=
  report.isSuspended = false ∨ ∃ p op, report.status = .suspended p.token p.prompt ∧
    s.Awaits setting plan p op ∧ P p

-- How many items an operation has still to use once the one that it waits for is done.
def remaining (s : Session) (operation : String) : Nat :=
  (Visit.recordedNames s.activity.records operation "remaining").length

-- Whether an answer is accepted and leads back to the operation that waits or to an earlier one.
def leadsBack (setting : Setting) (answer : Answer) (s : Session) : Bool :=
  match s.activity.pending with
  | none => false
  | some p =>
    match waiting? s.activity.toPlan p with
    | none => false
    | some op =>
      Visit.leadsBack ⟨setting, s.activity.toPlan, op⟩ p.cursor answer (s.bind p.target).run

theorem Stands.mono {P Q : Pending → Prop} {report : Report} (h : Stands setting plan P report s)
    (hPQ : ∀ p, P p → Q p) : Stands setting plan Q report s :=
  h.imp_right fun ⟨p, op, hstatus, hawaits, hP⟩ => ⟨p, op, hstatus, hawaits, hPQ p hP⟩

theorem Awaits.leadsBack_eq (h : s.Awaits setting plan p op) :
    s.leadsBack setting answer =
      Visit.leadsBack ⟨setting, plan, op⟩ p.cursor answer (s.bind p.target).run := by
  obtain ⟨rfl, hpending, hplace, -⟩ := h
  simp only [leadsBack, hpending, hplace]

theorem Awaits.mem (h : s.Awaits setting plan p op) : op ∈ plan.operations :=
  List.mem_mergeSort.1 (List.mem_of_getElem? (waiting?_eq_some_iff.1 h.place).1)

-- A session that waits with a prompt waits where its walk did.
theorem stands_close (hplan : s.activity.toPlan = plan) {w : Wait}
    (hleft : Run.Left setting plan w) (run : Run) :
    Stands setting plan
      (fun p => p.operation = w.operation ∧ p.cursor = { w.cursor with selected := true })
      (s.close setting (some w) run).1 (s.close setting (some w) run).2 := by
  obtain ⟨op, hop, hid, hasks⟩ := hleft
  exact .inr ⟨_, op, rfl, ⟨hplan, rfl, waiting?_eq_some_iff.2 ⟨hop, hid⟩, hasks⟩, rfl, rfl⟩

theorem stands_over (run : Run) (P : Pending → Prop) :
    Stands setting plan P (s.close setting none run).1 (s.close setting none run).2 := by
  left
  by_cases hhalts : run.halts.isEmpty <;> simp [close, Report.isSuspended, hhalts]

-- A walk from a cursor waits there or further down.
theorem stands_drive (hplan : s.activity.toPlan = plan) (c : Cursor) (run : Run) :
    Stands setting plan
      (fun p => p.cursor.unselected = c.unselected ∨ Cursor.Under plan.order.length p.cursor c)
      (s.drive setting c run).1 (s.drive setting c run).2 := by
  subst hplan
  have hwalk : ∀ w, (run.walk setting s.activity.toPlan c).1 = some w → _ :=
    Run.left_of_walk c run
  rw [drive]
  generalize run.walk setting s.activity.toPlan c = walked at hwalk ⊢
  obtain ⟨wait, run'⟩ := walked
  cases wait with
  | none => exact stands_over run' _
  | some w =>
    obtain ⟨hleft, hwhere⟩ := hwalk w rfl
    refine (stands_close rfl hleft run').mono fun p hp => ?_
    rw [hp.2]
    rcases hwhere with rfl | hfurther
    · exact .inl rfl
    · exact .inr hfurther

-- What comes of an answer while an operation waits. Either it is not accepted, and the operation
-- waits on as it did. Or there is less to come: the walk waits further down, or the same operation
-- for fewer items. An answer that leads back is the only exception.
inductive Answering (setting : Setting) (plan : Plan) (s : Session) (p : Pending) (op : Operation)
    (answer : Answer) : Except Failure Report × Session → Prop where
  | rejected {id message : String} {s' : Session} : answer ≠ .dismiss →
    s'.Awaits setting plan p op → s'.remaining p.operation = s.remaining p.operation →
    Answering setting plan s p op answer (.error (.rejected id message), s')
  | taken {report : Report} {s' : Session} :
    Stands setting plan (fun p' => s.leadsBack setting answer = true ∨
      Cursor.Under plan.order.length p'.cursor p.cursor ∨
      p'.cursor = p.cursor ∧ p'.operation = p.operation ∧
        s'.remaining p.operation < s.remaining p.operation) report s' →
    Answering setting plan s p op answer (.ok report, s')

theorem answering (h : s.Awaits setting plan p op) (hid : op.id ≠ Records.targetKey)
    (answer : Answer) :
    s.Answering setting plan p op answer (s.resume setting p.token answer) := by
  have hback : s.leadsBack setting answer = _ := h.leadsBack_eq
  obtain ⟨rfl, hpending, hplace, hasks⟩ := h
  obtain ⟨hop, hoperation⟩ := waiting?_eq_some_iff.1 hplace
  have hlt : p.cursor.position < s.activity.toPlan.order.length :=
    (List.getElem?_eq_some_iff.1 hop).1
  -- The operation finds on record what it left there.
  have hrecord : ∀ field, Visit.recordedNames (s.bind p.target).run.records op.id field =
      Visit.recordedNames s.activity.records op.id field := fun field =>
    Visit.recordedNames_congr (Records.find?_bind.trans (if_neg hid)) field
  rw [resume_waiting answer hpending hplace]
  split
  · next failure run hanswered =>
    obtain ⟨id, message, rfl⟩ := answered_error hanswered
    obtain ⟨hanswer, hrecords⟩ := Visit.records_of_rejected hasks.poses hanswered
    refine .rejected hanswer ⟨rfl, hpending, hplace, hasks⟩ ?_
    show (Visit.recordedNames run.records p.operation "remaining").length = _
    rw [hrecords, ← hoperation, hrecord, remaining]
  · next turn run hanswered =>
    refine .taken ?_
    cases turn with
    | goes c =>
      refine (stands_drive (s := (s.bind p.target).withoutPending) rfl c run).mono fun p' hp' => ?_
      rw [hback]
      refine (Visit.under_of_answered hlt hanswered).imp_right fun hunder => .inl ?_
      rcases hp' with hsame | hfurther
      · rwa [Cursor.Under, hsame]
      · exact hfurther.trans hunder
    | ends => exact stands_over run _
    | waits c operation prompt =>
      obtain ⟨rfl, rfl⟩ := answered_waits hanswered
      have hleft : Run.Left setting s.activity.toPlan ⟨p.cursor, op.id, prompt⟩ :=
        ⟨op, hop, rfl, Visit.asks_of_answered hanswered⟩
      refine (stands_close (s := (s.bind p.target).withoutPending) rfl hleft run).mono
        fun p' ⟨hsame, hcursor⟩ => .inr (.inr ⟨hcursor, hsame.trans hoperation, ?_⟩)
      have hshorter := Visit.remaining_of_answered hasks.poses hanswered
      rw [hrecord] at hshorter
      rwa [← hoperation]

theorem stands_start {origin : Option String} {report : Report} {s' : Session}
    (h : s.start setting origin = (.ok report, s')) :
    s.activity.errors = [] ∧ Stands setting s.activity.toPlan (fun _ => True) report s' := by
  have hstarting := s.starting setting origin
  rw [h] at hstarting
  generalize hcalled : (Except.ok report, s') = called at hstarting
  cases hstarting with
  | invalid => cases hcalled
  | unknown => cases hcalled
  | walked herrors =>
    cases hcalled
    exact ⟨herrors, (stands_drive (s := s.begun) rfl _ _).mono fun _ _ => trivial⟩

end Session

end Tabletop
