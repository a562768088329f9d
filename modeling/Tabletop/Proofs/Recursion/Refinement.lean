import Tabletop.Proofs.Recursion.Unwinding
import Tabletop.Proofs.Session.Suspension
import Tabletop.Proofs.Step.Resource
import Tabletop.Proofs.Walk.Earlier

-- An invocation with answers to its prompts comes to what the recursion comes to.
namespace Tabletop

namespace Session

-- Gives answers one after the other, each to the prompt that is out, and joins the reports.
def giveAll (setting : Setting) : List Answer → Report → Session → Except Failure Report × Session
  | [], report, s => (.ok report, s)
  | answer :: answers, report, s =>
    match s.activity.pending with
    | none => (.error .nothingPending, s)
    | some p =>
      match s.resume setting p.token answer with
      | (.ok next, s) => giveAll setting answers (report.followedBy next) s
      | (.error failure, s) => (.error failure, s)

-- Starts an invocation and gives the answers.
def play (setting : Setting) (origin : Option String) (answers : List Answer) (s : Session) :
    Except Failure Report × Session :=
  match s.start setting origin with
  | (.ok report, s) => s.giveAll setting answers report
  | (.error failure, s) => (.error failure, s)

-- Whether all data of a session are those of a run.
structure Shows (s : Session) (run : Run) : Prop where
  records : s.activity.records = run.records
  ledger : s.activity.ledger = run.ledger
  charged : s.activity.charged = run.charged
  world : s.world = run.world
  dice : s.dice = run.dice

end Session

namespace Recursion

-- The recursion over a whole invocation, from the position at which it starts.
def play (setting : Setting) (position : Nat) (selected : Bool) (answers : List Answer)
    (s : Session) : Ending × Play :=
  walk setting s.activity.toPlan position none selected ⟨s.begun.run, answers, s.issued⟩

-- How the session and its joined report stand where the recursion ends: with the same steps, halts
-- and data, and at a question that waits with the very forks that are around it.
inductive Concluded : Ending × Play → Except Failure Report × Session → Prop where
  | done {g : Play} {report : Report} {s : Session} : g.answers = [] →
    report.isSuspended = false → report.steps = g.run.steps → report.halts = g.run.halts →
    s.Shows g.run → s.activity.pending = none → Concluded (.done, g) (.ok report, s)
  | unasked {g : Play} {s : Session} : g.answers ≠ [] → s.Shows g.run →
    s.activity.pending = none → Concluded (.done, g) (.error .nothingPending, s)
  | asks {g : Play} {report : Report} {s : Session} (p : Pending) : g.answers = [] →
    report.status = .suspended p.token p.prompt → report.steps = g.run.steps →
    report.halts = g.run.halts → s.Shows g.run → s.activity.pending = some p →
    Concluded (.asks ⟨p.operation, p.position, p.prompt, p.target, p.forks⟩, g) (.ok report, s)
  | refused {g : Play} {failure : Failure} {s : Session} : s.Shows g.run →
    Concluded (.refused failure, g) (.error failure, s)

theorem destined_onto {earlier : Report} (v : Visit) (target destination : Option String)
    (moved : Move × Run) : destined v target destination (Run.ontoOf earlier moved) =
      Run.ontoOf earlier (destined v target destination moved) := by
  obtain ⟨move, run⟩ := moved
  cases move with
  | onward =>
    cases destination with
    | none => rfl
    | some id =>
      simp only [destined, Run.ontoOf]
      cases v.plan.position? id <;> simp
  | _ => rfl

theorem reply_onto {earlier : Report} (v : Visit) (target : Option String) (answer : Answer)
    (run : Run) : reply v target answer (run.onto earlier) =
      Run.ontoOf earlier (reply v target answer run) := by
  unfold reply
  split
  · simp [Run.ontoOf]
  · simp only [Visit.announceStart_onto, Run.act_onto]
    generalize (v.announceStart target run).act (v.accept answer) = taken
    obtain ⟨result, run'⟩ := taken
    cases result with
    | error failure => cases failure <;> simp [answered, Run.ontoOf]
    | ok accepted =>
      simp only [answered, Run.ontoOf, Visit.settle_onto]
      rw [← Run.ontoOf, destined_onto]
      rfl

-- A session over this plan whose joined report waits for an answer to this operation.
structure Waiting (plan : Plan) (op : Operation) (p : Pending) (report : Report) (s : Session) :
    Prop where
  plan_eq : s.activity.toPlan = plan
  pending : s.activity.pending = some p
  place : plan.order[p.position]? = some op
  operation : op.id = p.operation
  bound : s.activity.records.Bound p.target
  status : report.status = .suspended p.token p.prompt

-- Where the recursion stands while a session waits.
def awaiting (setting : Setting) (plan : Plan) (op : Operation) (p : Pending)
    (answers : List Answer) (report : Report) (s : Session) : Ending × Play :=
  unwind setting plan p.forks (await setting plan p.position op p.target p.prompt
    ⟨s.run.onto report, answers, s.issued⟩)

-- What these answers make of a session that waits.
def Conclusive (setting : Setting) (plan : Plan) (answers : List Answer) : Prop :=
  ∀ op p report s, Waiting plan op p report s →
    Concluded (awaiting setting plan op p answers report s) (s.giveAll setting answers report)

variable {setting : Setting} {plan : Plan} {answers : List Answer} {s : Session}

theorem concluded_ends (report : Report) (run : Run) (s : Session)
    (hpending : s.activity.pending = none) :
    Concluded (.done, ⟨run.onto report, answers, s.issued⟩)
      ((s.close setting none run).2.giveAll setting answers
        (report.followedBy (s.close setting none run).1)) := by
  have hshows : (s.close setting none run).2.Shows (run.onto report) := ⟨rfl, rfl, rfl, rfl, rfl⟩
  cases answers with
  | nil =>
    refine .done rfl ?_ rfl rfl hshows hpending
    simp only [Report.followedBy, Session.close, Report.isSuspended]
    cases run.halts.isEmpty <;> rfl
  | cons answer answers =>
    have hnone : (s.close setting none run).2.activity.pending = none := hpending
    rw [Session.giveAll, hnone]
    exact .unasked (by simp) hshows hpending

theorem concluded_waits (hall : Conclusive setting plan answers) (w : Wait) (report : Report)
    (run : Run) (s : Session) {op : Operation} (hplan : s.activity.toPlan = plan)
    (hop : plan.order[w.cursor.position]? = some op) (hid : op.id = w.operation)
    (hbound : run.records.Bound w.cursor.target) :
    Concluded (aheadOf setting plan ⟨run.onto report, answers, s.issued⟩
        (.waits w.cursor w.operation w.prompt))
      ((s.close setting (some w) run).2.giveAll setting answers
        (report.followedBy (s.close setting (some w) run).1)) := by
  have hconcluded := hall op _ (report.followedBy (s.close setting (some w) run).1)
    (s.close setting (some w) run).2 ⟨hplan, rfl, hop, hid, hbound, rfl⟩
  have hask : (Play.mk (run.onto report) answers s.issued).ask setting op.id =
      ⟨(s.close setting (some w) run).2.run.onto
        (report.followedBy (s.close setting (some w) run).1), answers,
        (s.close setting (some w) run).2.issued⟩ := by
    simp [Play.ask, Session.close, Session.run, Session.keep, Session.emit, Run.onto, Run.emit,
      Report.followedBy, hid]
  simp only [aheadOf, hop, follow_waiting, hask]
  exact hconcluded

theorem concluded_drive (hall : Conclusive setting plan answers) (hspares : plan.Spares)
    (c : Cursor) (report : Report) (run : Run) (s : Session) (hplan : s.activity.toPlan = plan)
    (hpending : s.activity.pending = none) (hbound : run.records.Bound c.target) :
    Concluded (ahead setting plan c ⟨run.onto report, answers, s.issued⟩)
      ((s.drive setting c run).2.giveAll setting answers
        (report.followedBy (s.drive setting c run).1)) := by
  have hplace := Run.walk_waits setting plan c run
  have htarget := Run.bound_walk setting hspares c run hbound
  rw [ahead_walk hspares c (run.onto report) answers s.issued hbound, Run.walk_onto]
  rw [Session.drive, hplan]
  generalize run.walk setting plan c = walked at hplace htarget ⊢
  obtain ⟨wait, run'⟩ := walked
  cases wait with
  | none => exact concluded_ends report run' s hpending
  | some w =>
    obtain ⟨op, hop, hid⟩ := hplace w rfl
    exact concluded_waits hall w report run' s hplan hop hid (htarget w rfl)

theorem concluded_proceed (hall : Conclusive setting plan answers) (hspares : plan.Spares)
    (turn : Turn) (report : Report) (run : Run) (s : Session) (hplan : s.activity.toPlan = plan)
    (hpending : s.activity.pending = none) (hbound : turn.Bound run.records)
    (hplace : ∀ c operation prompt, turn = .waits c operation prompt →
      ∃ op, plan.order[c.position]? = some op ∧ op.id = operation) :
    Concluded (aheadOf setting plan ⟨run.onto report, answers, s.issued⟩ turn)
      ((s.proceed setting turn run).2.giveAll setting answers
        (report.followedBy (s.proceed setting turn run).1)) := by
  cases turn with
  | goes c => exact concluded_drive hall hspares c report run s hplan hpending hbound
  | ends => exact concluded_ends report run s hpending
  | waits c operation prompt =>
    obtain ⟨op, hop, hid⟩ := hplace c operation prompt rfl
    exact concluded_waits hall ⟨c, operation, prompt⟩ report run s hplan hop hid hbound

theorem turn_waits {size : Nat} {operation operation' : String} {c c' : Cursor} {way : Way}
    {prompt : Prompt} (h : turn size operation c way = .waits c' operation' prompt) :
    c' = c ∧ operation' = operation := by
  cases way with
  | jump position => cases h
  | move move =>
    cases move <;> cases h
    exact ⟨rfl, rfl⟩

-- What is ahead of the turn after an answer is what the recursion does with the answer.
theorem aheadOf_turn {c : Cursor} {g : Play} {op : Operation}
    (hop : plan.order[c.position]? = some op) (hbound : g.run.records.Bound c.target) (way : Way) :
    aheadOf setting plan g (turn plan.order.length op.id c way) =
      unwind setting plan c.forks (match way with
        | .jump position => walk setting plan position c.target true g
        | .move move => follow setting plan c.position op c.target move g) := by
  cases way with
  | move move => exact aheadOf_after hop hbound move
  | jump position => rfl

theorem resume_eq_reply {op : Operation} {p : Pending} {report : Report}
    (hs : Waiting plan op p report s) (answer : Answer) :
    s.resume setting p.token answer =
      match reply ⟨setting, plan, op⟩ (p.target.map Snapshot.id) answer s.run with
      | (.error failure, run) => (.error failure, s.keep run)
      | (.ok way, run) =>
        let (report, s) := s.withoutPending.proceed setting
          (turn plan.order.length op.id ⟨p.position, p.target, p.forks, true⟩ way) run
        (.ok report, s) := by
  have hwaiting : Session.waiting? plan p = some op :=
    Session.waiting?_eq_some_iff.2 ⟨hs.place, hs.operation⟩
  have hbind : s.bind p.target = s := by
    simp only [Session.bind, hs.bound.bind_eq]
  rw [Session.resume_waiting answer hs.pending (hs.plan_eq ▸ hwaiting)]
  simp only [hs.plan_eq, hbind, answered_eq_reply, Cursor.targetId]
  generalize reply ⟨setting, plan, op⟩ (p.target.map Snapshot.id) answer s.run = replied
  obtain ⟨result, run⟩ := replied
  cases result <;> rfl

theorem conclusive (hspares : plan.Spares) (answers : List Answer) :
    Conclusive setting plan answers := by
  induction answers with
  | nil =>
    intro op p report s hs
    rw [awaiting, await, unwind_asks, hs.operation]
    exact .asks p rfl hs.status (by simp [Run.onto, Session.run]) (by simp [Run.onto, Session.run])
      ⟨rfl, rfl, rfl, rfl, rfl⟩ hs.pending
  | cons answer answers ih =>
    intro op p report s hs
    have hbound : (reply ⟨setting, plan, op⟩ (p.target.map Snapshot.id) answer
        s.run).2.records.Bound p.target :=
      keeps_reply _ ((hspares.of_order hs.place).allows _) answer hs.bound
    rw [awaiting, await, Session.giveAll, hs.pending]
    simp only [reply_onto, resume_eq_reply hs]
    generalize reply ⟨setting, plan, op⟩ (p.target.map Snapshot.id) answer s.run = replied
      at hbound ⊢
    obtain ⟨result, run⟩ := replied
    cases result with
    | error failure =>
      simp only [Run.ontoOf, unwind_refused]
      exact .refused ⟨rfl, rfl, rfl, rfl, rfl⟩
    | ok way =>
      have hproceed := concluded_proceed ih hspares
        (turn plan.order.length op.id ⟨p.position, p.target, p.forks, true⟩ way) report run
        s.withoutPending hs.plan_eq rfl (bound_turn hbound way) ?_
      · rw [aheadOf_turn hs.place hbound] at hproceed
        simp only [Run.ontoOf]
        cases way <;> exact hproceed
      · intro c operation prompt hturn
        obtain ⟨rfl, rfl⟩ := turn_waits hturn
        exact ⟨op, hs.place, rfl⟩

end Recursion

theorem Session.start_eq_drive {setting : Setting} {origin : Option String} {s : Session}
    {position : Nat} (herrors : s.activity.errors = [])
    (hopening : s.opening? origin = some position) :
    s.start setting origin =
      let (report, s') := s.begun.drive setting ⟨position, none, [], origin.isSome⟩ s.begun.run
      (.ok report, s') := by
  have hstarting := s.starting setting origin
  generalize s.start setting origin = called at hstarting ⊢
  cases hstarting with
  | invalid hinvalid => exact absurd herrors hinvalid
  | unknown _ horigin hunknown => simp [horigin, opening?, hunknown] at hopening
  | walked _ hposition =>
    obtain rfl := Option.some.inj (hposition.symm.trans hopening)
    rfl

open Recursion in
-- An invocation and its answers come to what the recursion comes to. The one thing that can come
-- between them is a resource that is spent under the key of the bound target.
theorem Session.play_concluded (setting : Setting) (origin : Option String)
    (answers : List Answer) (s : Session) (position : Nat) (herrors : s.activity.errors = [])
    (hopening : s.opening? origin = some position)
    (hconsumed : ∀ op ∈ s.activity.operations, ∀ amount,
      op.kind ≠ .consumeResource Records.targetKey amount) :
    Concluded (Recursion.play setting position origin.isSome answers s)
      (s.play setting origin answers) := by
  have hspares : s.activity.toPlan.Spares := fun op hop =>
    ⟨Activity.id_ne_target herrors op hop, hconsumed op hop⟩
  rw [Session.play, start_eq_drive herrors hopening]
  exact concluded_drive (conclusive hspares answers) hspares
    ⟨position, none, [], origin.isSome⟩ ⟨.completed, [], []⟩ s.begun.run s.begun rfl rfl
    Records.bound_bind

open Recursion in
theorem Session.play_concluded_crossroads :
    crossroads.activity.errors = [] ∧
      Concluded (Recursion.play { actor := "hero" } 0 false [.choice "left"] crossroads)
        (crossroads.play { actor := "hero" } none [.choice "left"]) := by
  have herrors : crossroads.activity.errors = [] := by cbv
  refine ⟨herrors, play_concluded _ none _ crossroads 0 herrors rfl ?_⟩
  simp [crossroads]

namespace Session

-- A mark that is spent, and a question after it. The mark has the key of the bound target.
def mark : Resource where
  id := "target"
  name := "Mark"
  maximumFormula := "3"
  maximum := 3
  value := 3
  negativeAllowed := true
  reset := .never

def spending : Operation := { id := "spend", kind := .consumeResource "target" "" }

def asking : Operation := { id := "ask", kind := .variable "" none none none }

def marked : Session where
  activity :=
    { id := "mark"
      operations := [spending, asking]
      ledger := Dict.insert Dict.empty "target" mark }
  world := World.ofList [{ id := "hero", name := "Hero" }]
  dice := .highest

def heroic : Setting := { actor := "hero" }

theorem visit_asking (run : Run) (plan : Plan) : ∃ prompt run',
    (Visit.mk heroic plan asking).visit none false run = (.waiting prompt, run') :=
  ⟨_, _, rfl⟩

theorem visit_spending {run : Run} {plan : Plan} {hero : Entity}
    (hactor : run.world.read heroic.keeper "hero" = .ok hero)
    (hledger : Dict.find? run.ledger "target" = some mark) :
    ∃ run', (Visit.mk heroic plan spending).visit none false run = (.onward, run') ∧
      (Dict.find? run'.records "target").isSome := by
  let v : Visit := ⟨heroic, plan, spending⟩
  let started := v.announceStart none run
  obtain ⟨outcome, s', hrun, hresult, hrecorded⟩ :
      ∃ outcome s', (v.consumeResource "target" "").run started.toStage = (.ok outcome, s') ∧
        outcome.result = .success ∧ (Dict.find? s'.records "target").isSome :=
    Visit.run_consumeResource_blank hactor hledger rfl
  have hvisit : v.visit none false run =
      v.settle none (.ok outcome) { run with toStage := s' } := by
    show v.settle none (started.act (v.consumeResource "target" "")).1
      (started.act (v.consumeResource "target" "")).2 = _
    rw [Run.act, hrun]
    rfl
  have hsettled : (Dict.find? (v.visit none false run).2.records "target").isSome := by
    rw [hvisit]
    exact Visit.keeps_settle (P := fun r => (Dict.find? r "target").isSome) (v := v) none
      (spending.allows_recorded "target") _ hrecorded
  refine ⟨_, ?_, hsettled⟩
  rw [hvisit, Visit.settle, hresult]
  rfl

-- Whoever dismisses a question outside of all forks is left with the records as they are, with the
-- target of the question bound.
theorem dismiss_last (setting : Setting) {s : Session} {p : Pending} {op : Operation}
    (hpending : s.activity.pending = some p) (hwaiting : waiting? s.activity.toPlan p = some op)
    (hforks : p.forks = []) :
    ∃ report s', s.resume setting p.token .dismiss = (.ok report, s') ∧
      s'.activity.records = s.activity.records.bind p.target := by
  rw [resume_waiting .dismiss hpending hwaiting]
  simp only [answered, proceed, Cursor.ended, hforks, Prod.map, id_eq]
  have hplan : (s.bind p.target).withoutPending.activity.toPlan = s.activity.toPlan := rfl
  refine ⟨_, _, rfl, ?_⟩
  rw [drive, hplan, Run.walk_ended]
  rfl

open Recursion in
-- The answer binds the target of its question again, which is none, and so the record of the mark
-- is lost. The recursion never leaves the operation, and keeps the record.
theorem not_play_concluded_marked :
    ¬ ∀ (setting : Setting) (origin : Option String) (answers : List Answer) (s : Session)
      (position : Nat), s.activity.errors = [] → s.opening? origin = some position →
      Concluded (Recursion.play setting position origin.isSome answers s)
        (s.play setting origin answers) := by
  intro hall
  have herrors : marked.activity.errors = [] := by cbv
  have horder : marked.activity.toPlan.order = [spending, asking] := by cbv
  have hfirst : marked.activity.toPlan.order[0]? = some spending := by rw [horder]; rfl
  have hsecond : marked.activity.toPlan.order[1]? = some asking := by rw [horder]; rfl
  have hconcluded := hall heroic none [.dismiss] marked 0 herrors rfl
  have hactor : marked.begun.run.world.read heroic.keeper "hero" =
      .ok { id := "hero", name := "Hero" } := by cbv
  obtain ⟨run₁, hspending, hrecorded₁⟩ :
      ∃ run', (Visit.mk heroic marked.activity.toPlan spending).visit none false
        marked.begun.run = (.onward, run') ∧ (Dict.find? run'.records "target").isSome :=
    visit_spending hactor rfl
  obtain ⟨prompt, run₂, hasking⟩ := visit_asking run₁ marked.activity.toPlan
  have hrecorded₂ : (Dict.find? run₂.records "target").isSome := by
    have hkept : (Dict.find? ((Visit.mk heroic marked.activity.toPlan asking).visit none false
        run₁).2.records "target").isSome :=
      Visit.keeps_visit (P := fun r => (Dict.find? r "target").isSome) none
        (asking.allows_recorded "target") false hrecorded₁
    rwa [hasking] at hkept
  have hrecursion : ∃ g, Recursion.play heroic 0 false [.dismiss] marked = (.done, g) ∧
      (Dict.find? g.run.records "target").isSome := by
    rw [Recursion.play, walk_visit _ hfirst]
    simp only [Option.map_none, hspending, follow_onward]
    rw [walk_visit _ hsecond]
    simp only [Option.map_none, hasking, follow_waiting, await, Play.ask, reply, follow_ended]
    exact ⟨_, rfl, hrecorded₂⟩
  have hstart : ∃ report s₁ p, marked.start heroic none = (.ok report, s₁) ∧
      s₁.activity.pending = some p ∧ waiting? s₁.activity.toPlan p = some asking ∧
      p.target = none ∧ p.forks = [] := by
    have hgoes := Run.next_of_visit (c := ⟨0, none, [], false⟩) hfirst hspending
    have hwaits := Run.next_of_visit (c := ⟨1, none, [], false⟩) hsecond hasking
    have hwalk : marked.begun.run.walk heroic marked.activity.toPlan ⟨0, none, [], false⟩ =
        (some ⟨⟨1, none, [], false⟩, "ask", prompt⟩, run₂) := by
      rw [Run.walk_of_goes hgoes]
      exact Run.walk_of_waits hwaits
    have hplan : marked.begun.activity.toPlan = marked.activity.toPlan := rfl
    rw [start_eq_drive herrors rfl, drive, hplan, Option.isSome_none, hwalk]
    refine ⟨_, _, _, rfl, rfl, ?_, rfl, rfl⟩
    show (marked.activity.order[1]?).filter _ = _
    rw [hsecond]
    rfl
  obtain ⟨report, s₁, p, hstart, hpending, hwaiting, htarget, hforks⟩ := hstart
  obtain ⟨next, s₂, hresume, hrecords⟩ := dismiss_last heroic hpending hwaiting hforks
  have hplay : marked.play heroic none [.dismiss] = (.ok (report.followedBy next), s₂) := by
    rw [Session.play, hstart]
    simp only [giveAll, hpending, hresume]
  obtain ⟨g, hrecursion, hrecorded⟩ := hrecursion
  rw [Option.isSome_none, hrecursion, hplay] at hconcluded
  cases hconcluded with
  | done _ _ _ _ hshows _ =>
    rw [← hshows.records, hrecords, htarget, Records.find?_bind] at hrecorded
    simp [Records.targetKey] at hrecorded

end Session

end Tabletop
