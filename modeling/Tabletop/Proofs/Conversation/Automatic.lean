import Tabletop.Proofs.Conversation.Ending
import Tabletop.Proofs.Session.Halts
import Tabletop.Proofs.Step.Automatic

-- Conversations whose prompts are answered automatically. They end if first choices lead onward,
-- but two selections that offer each other keep them going for ever.
namespace Tabletop

-- Whom nobody asks: all prompts are answered automatically.
def Audience.automatic {m : Type → Type} [Monad m] (hear : List Event → m Unit) : Audience m where
  hear
  answer prompt := pure (.ok prompt.automatic)

def unheard : Audience (StateM Unit) := .automatic fun _ => pure ()

-- Where the first choice of an operation leads, if anywhere.
def Plan.firstDestination? (plan : Plan) (op : Operation) : Option String :=
  match op.kind with
  | .selectOption options _ => options.head?.bind OptionEntry.continueFrom
  | _ => (plan.destinations op).head?

-- Whether first choices only lead to operations that come later.
def Plan.FirstOnward (plan : Plan) : Prop :=
  ∀ i op, plan.order[i]? = some op → ∀ id ∈ plan.firstDestination? op,
    ∀ j, plan.position? id = some j → i < j

namespace Plan

variable {plan : Plan} {op : Operation} {id : String}

theorem mem_destinations_of_first (h : id ∈ plan.firstDestination? op) :
    id ∈ plan.destinations op := by
  unfold firstDestination? at h
  split at h
  · next options title hkind =>
    obtain ⟨entry, hentry, hleads⟩ := Option.bind_eq_some_iff.1 h
    simp only [destinations, hkind]
    exact List.mem_filterMap.2 ⟨entry, List.mem_of_mem_head? hentry, hleads⟩
  · exact List.mem_of_mem_head? h

theorem Onward.first (h : plan.Onward) : plan.FirstOnward :=
  fun i op hop id hid => h i op hop id (mem_destinations_of_first hid)

end Plan

namespace Visit

variable {v : Visit} {prompt : Prompt} {outcome : Outcome} {id : String} {s s' : Stage}

-- The first operation that is listed is the first candidate, if there is such an operation.
theorem head?_candidates {operations : List String} {title : Option String} {first : Choice}
    {rest : List Choice} (hkind : v.op.kind = .selectOperation operations title)
    (hoffered : ∀ id ∈ Validation.offered v.op.kind, ∃ op ∈ v.plan.operations, op.id = id)
    (hchoices : v.candidates operations = first :: rest) :
    v.plan.firstDestination? v.op = some first.value := by
  simp only [Plan.firstDestination?, Plan.destinations, hkind]
  cases operations with
  | nil =>
    show ((v.candidates []).map Choice.value).head? = _
    rw [hchoices]
    rfl
  | cons name names =>
    obtain ⟨op, hop, hid⟩ := hoffered name (by simp [hkind, Validation.offered])
    have hsome : (v.plan.operation? name).isSome = true :=
      List.find?_isSome.2 ⟨op, hop, beq_iff_eq.2 hid⟩
    obtain ⟨found, hfound⟩ := Option.isSome_iff_exists.1 hsome
    have hname : (found.id == name) = true :=
      List.find?_some (p := fun op : Operation => op.id == name) hfound
    have hcandidates : v.candidates (name :: names) = ⟨found.id, found.label⟩ ::
        (names.filterMap v.plan.operation?).map fun op => ⟨op.id, op.label⟩ := by
      simp [candidates, hfound]
    obtain rfl : _ = first := (List.cons.inj (hcandidates.symm.trans hchoices)).1
    rw [beq_iff_eq.1 hname]
    rfl

-- An automatic answer leads where the first choice does.
theorem firstDestination?_of_accept
    (hoffered : ∀ id ∈ Validation.offered v.op.kind, ∃ op ∈ v.plan.operations, op.id = id)
    (hposes : v.Poses prompt.kind)
    (h : (v.accept prompt.automatic).run s = (.ok (outcome, some id), s')) :
    v.plan.firstDestination? v.op = some id := by
  have hcases := hposes
  unfold Poses at hcases
  split at hcases
  · next source hkind =>
    simp only [accept, hkind] at h
    cases eq_none_of_run h
  · next label default min max hkind =>
    simp only [accept, hkind] at h
    cases eq_none_of_run h
  · next operations title hkind =>
    obtain ⟨first, rest, hchoices, hautomatic⟩ := automatic_of_operation hkind hposes
    simp only [accept, hkind, hautomatic, acceptOperation_first hchoices] at h
    cases eq_of_run_lift h
    exact head?_candidates hkind hoffered hchoices
  · next options title hkind =>
    obtain ⟨entry, rest, rfl, hautomatic⟩ := automatic_of_option hkind hposes
    obtain ⟨outcome', haccept⟩ := acceptOption_first v entry rest
    simp only [accept, hkind, hautomatic, haccept] at h
    simp only [Plan.firstDestination?, hkind]
    exact (Prod.mk.inj (Except.ok.inj (eq_of_run_lift h))).2
  · exact hcases.elim

end Visit

namespace Conversation

variable {σ : Type} {setting : Setting} {plan : Plan} {hear : List Event → StateM σ Unit}
  {c next : Conversation} {x y : σ} {token : String} {prompt : Prompt} {answer : Answer}

-- Only out of patience is an answer not the automatic one.
theorem Leads.automatic
    (h : Leads setting (.automatic hear) c x token prompt answer next y) :
    answer = .dismiss ∨ answer = prompt.automatic := by
  obtain ⟨z, hask, -⟩ := h.answers
  unfold ask at hask
  split at hask
  · cases hask
    exact .inl rfl
  · cases hask
    exact .inr rfl

end Conversation

namespace Session

variable {σ : Type} {setting : Setting} {plan : Plan} {s : Session} {p : Pending} {op : Operation}

theorem leadsBack_dismiss (h : s.Awaits setting plan p op) :
    s.leadsBack setting .dismiss = false := by
  rw [h.leadsBack_eq]
  rfl

theorem leadsBack_automatic (honward : plan.FirstOnward) (h : s.Awaits setting plan p op)
    (hoffered : ∀ id ∈ Validation.offered op.kind, ∃ other ∈ plan.operations, other.id = id) :
    s.leadsBack setting p.prompt.automatic = false :=
  leadsBack_of_later h fun id _ _ _ j haccept hposition =>
    honward p.position op (waiting?_eq_some_iff.1 h.place).1 id
      (Visit.firstDestination?_of_accept hoffered h.asks.poses haccept) j hposition

theorem concludes_of_firstOnward (honward : s.activity.toPlan.FirstOnward) (setting : Setting)
    (origin : Option String) (hear : List Event → StateM σ Unit) (x : σ) :
    s.Concludes setting origin (.automatic hear) x := by
  refine concludes_of_leads (fun herrors hawaits hleads => ?_) origin x
  rcases hleads.automatic with rfl | rfl
  · exact leadsBack_dismiss hawaits
  · exact leadsBack_automatic honward hawaits fun id =>
      Activity.offered_of_errors_eq herrors hawaits.mem

-- A conversation that is held automatically ends if and only if its answers lead back only so
-- often. That is so wherever first choices lead onward.
theorem converse_automatic (setting : Setting) (origin : Option String)
    (hear : List Event → StateM σ Unit) (s : Session) (x : σ) :
    (s.Concludes setting origin (.automatic hear) x ↔
      ∃ n, ∀ limit, s.returns setting origin (.automatic hear) x limit ≤ n) ∧
    (s.activity.toPlan.FirstOnward → s.Concludes setting origin (.automatic hear) x) :=
  ⟨concludes_iff_returns setting origin (.automatic hear) s x,
    fun honward => concludes_of_firstOnward honward setting origin hear x⟩

theorem converse_automatic_goblins :
    Conversation.goblins.activity.toPlan.FirstOnward ∧
      Conversation.goblins.Concludes Conversation.parley none unheard () :=
  ⟨onward_goblins.first, (converse_automatic Conversation.parley none (fun _ => pure ())
    Conversation.goblins ()).2 onward_goblins.first⟩

end Session

/-! Two selections that offer each other -/

inductive Side where
  | east
  | west

namespace Side

open Conversation

variable {side : Side}

def other : Side → Side
  | east => west
  | west => east

def position : Side → Nat
  | east => 0
  | west => 1

def name : Side → String
  | east => "east"
  | west => "west"

-- The road of a side leads to the other side.
def road (side : Side) : Operation where
  id := side.name
  kind := .selectOperation [side.other.name] none

def question (side : Side) : Prompt :=
  ⟨side.name ++ ": choose an operation", .select [⟨side.other.name, side.other.name⟩]⟩

end Side

def roundabout : Session where
  activity := { id := "roundabout", operations := [Side.east.road, Side.west.road] }
  world := World.ofList [{ id := "hero", name := "Hero" }]
  dice := .highest

namespace Side

open Conversation

variable {side : Side} {σ : Type}

theorem order_roundabout : roundabout.activity.toPlan.order = roundabout.activity.operations :=
  List.mergeSort_of_pairwise (by decide)

theorem errors_roundabout : roundabout.activity.errors = [] := by
  have hselections : Validation.selectRefs roundabout.activity = [] := by
    simp only [Validation.selectRefs, Validation.place?, order_roundabout]
    decide +kernel
  exact Activity.errors_eq_nil (by decide +kernel) (by decide +kernel) hselections rfl

theorem order_position (side : Side) :
    roundabout.activity.toPlan.order[side.position]? = some side.road := by
  rw [order_roundabout]
  cases side <;> rfl

theorem position?_name (side : Side) :
    roundabout.activity.toPlan.position? side.name = some side.position := by
  rw [Plan.position?, order_roundabout]
  cases side <;> decide

-- A road asks where to go, whatever has happened before.
theorem visit_road (side : Side) (target : Option String) (selected : Bool) (run : Run) :
    ((Visit.mk parley roundabout.activity.toPlan side.road).visit target selected run).1 =
      .waiting side.question := by
  cases side <;> rfl

theorem walk_road (side : Side) {c : Cursor} (hc : c.position = side.position) (run : Run) : ∃ run',
    run.walk parley roundabout.activity.toPlan c = (some ⟨c, side.name, side.question⟩, run') := by
  have hop : roundabout.activity.toPlan.order[c.position]? = some side.road := by
    rw [hc, order_position]
  have hvisit := visit_road side c.targetId c.selected run
  exact ⟨_, Run.walk_of_waits (Run.next_of_visit hop (Prod.ext hvisit rfl))⟩

-- The road accepts that one goes to the other side.
theorem answered_road (side : Side) (c : Cursor) (run : Run) : ∃ run',
    Session.answered ⟨parley, roundabout.activity.toPlan, side.road⟩ c
        (.choice side.other.name) run =
      (.ok (.goes { c with position := side.other.position, selected := true }), run') := by
  obtain ⟨notes, value, run', haccept⟩ : ∃ notes value run',
      ((Visit.mk parley roundabout.activity.toPlan side.road).announceStart c.targetId run).act
          ((Visit.mk parley roundabout.activity.toPlan side.road).accept
            (.choice side.other.name)) =
        (.ok (.success notes value, some side.other.name), run') := by
    cases side <;> exact ⟨_, _, _, rfl⟩
  simp only [Session.answered, haccept, Visit.settle, Visit.follow, Outcome.success,
    Session.afterAnswer, position?_name]
  exact ⟨_, rfl⟩

-- Whether the road of a side waits for an answer.
def Waits (side : Side) (report : Report) (s : Session) : Prop :=
  s.activity.toPlan = roundabout.activity.toPlan ∧ ∃ p, s.activity.pending = some p ∧
    p.position = side.position ∧ p.operation = side.name ∧
    report.status = .suspended p.token side.question

theorem waits_close {s : Session} {c : Cursor}
    (hplan : s.activity.toPlan = roundabout.activity.toPlan) (hc : c.position = side.position)
    (run : Run) :
    side.Waits (s.close parley (some ⟨c, side.name, side.question⟩) run).1
      (s.close parley (some ⟨c, side.name, side.question⟩) run).2 :=
  ⟨hplan, _, rfl, hc, rfl, rfl⟩

theorem waits_start : ∃ report s', roundabout.start parley none = (.ok report, s') ∧
    east.Waits report s' := by
  obtain ⟨run, hwalk⟩ := walk_road east (c := ⟨0, none, [], false⟩) rfl roundabout.begun.run
  exact ⟨_, _, Session.start_of_walk errors_roundabout hwalk, waits_close rfl rfl run⟩

-- After an answer the road of the other side waits.
theorem waits_reply {c : Conversation} {p : Pending} (h : side.Waits c.report c.session)
    (hp : c.session.activity.pending = some p) :
    ∃ next, c.reply parley p.token side.question.automatic = (.ok (), next) ∧
      side.other.Waits next.report next.session ∧ next.rejections = 0 := by
  obtain ⟨hplan, p', hp', hposition, hoperation, hstatus⟩ := h
  obtain rfl : p = p' := Option.some.inj (hp.symm.trans hp')
  have hplace : Session.waiting? c.session.activity.toPlan p = some side.road := by
    rw [hplan]
    exact Session.waiting?_eq_some_iff.2 ⟨hposition ▸ order_position side, hoperation.symm⟩
  obtain ⟨run, hanswered⟩ := answered_road side ⟨p.position, p.target, p.forks, true⟩
    (c.session.bind p.target).run
  obtain ⟨run', hwalk⟩ := walk_road side.other
    (c := ⟨side.other.position, p.target, p.forks, true⟩) rfl run
  have hresume : c.session.resume parley p.token side.question.automatic = _ :=
    Session.resume_waiting (.choice side.other.name) hp hplace
  rw [hplan, hanswered] at hresume
  have hsame : (c.session.bind p.target).withoutPending.activity.toPlan =
      roundabout.activity.toPlan := hplan
  simp only [Session.proceed, Session.drive, hsame, hwalk] at hresume
  rw [reply, hresume]
  exact ⟨_, rfl, waits_close hsame rfl run', rfl⟩

-- Automatic answers go from the one to the other for ever.
theorem goOn_eq_none (hear : List Event → StateM σ Unit) (limit : Nat) {c : Conversation} (x : σ)
    (h : side.Waits c.report c.session) (hrejections : c.rejections = 0) :
    ((goOn parley (.automatic hear) limit c).run x).1.1 = none := by
  induction limit generalizing side c x with
  | zero =>
    obtain ⟨-, p, -, -, -, hstatus⟩ := h
    rw [goOn.eq_def]
    simp only [hstatus]
    rfl
  | succ limit ih =>
    obtain ⟨p, hp, -, -, hstatus⟩ := h.2
    obtain ⟨next, hreply, hnext, hagain⟩ := waits_reply h hp
    have hask : (c.ask (.automatic hear) side.question).run x =
        (.ok side.question.automatic, x) := by
      rw [ask, hrejections]
      rfl
    have hleads : Leads parley (.automatic hear) c x p.token side.question
        side.question.automatic next _ := ⟨hstatus, ⟨x, hask, rfl⟩, hreply⟩
    rw [hleads.goOn_eq]
    exact ih _ hnext hagain

-- So an activity may be valid, and an automatic conversation about it never ends.
theorem not_concludes_roundabout :
    roundabout.activity.errors = [] ∧ ¬ roundabout.Concludes parley none unheard () := by
  refine ⟨errors_roundabout, fun ⟨limit, result, hsome, hsame⟩ => ?_⟩
  obtain ⟨report, s', hstart, hwaits⟩ := waits_start
  have hnone : ((roundabout.converse parley none unheard limit).run ()).1.1 = none := by
    simp only [Session.converse, hstart]
    exact goOn_eq_none _ limit _ hwaits rfl
  rw [← Nat.add_zero limit, hsame 0] at hnone
  simp [hnone] at hsome

end Side

end Tabletop
