import Mathlib.Logic.Relation
import Mathlib.Order.RelClasses
import Tabletop.Proofs.Recursion.Basic
import Tabletop.Proofs.Session.Rounds
import Tabletop.Proofs.Step.Prompts
import Tabletop.Proofs.Walk.Places
import Tabletop.Proofs.Walk.Uses

-- Where turns and answers lead from a cursor: to a place from which less is to come, unless an
-- answer leads back. An operation that waits again where it is has fewer items left to use.
namespace Tabletop

namespace Cursor

variable {size : Nat} {c c' c'' : Cursor}

-- Whether turns of a walk lead from one cursor to another, whatever was selected there.
def Under (size : Nat) (c' c : Cursor) : Prop :=
  Relation.TransGen (Follows size) c'.unselected c.unselected

theorem under_wf (size : Nat) : WellFounded (Under size) :=
  InvImage.wf unselected (follows_wf size).transGen

theorem Under.trans (h : Under size c'' c') (h' : Under size c' c) : Under size c'' c :=
  Relation.TransGen.trans h h'

theorem Follows.under (h : Follows size c' c) : Under size c' c := by
  refine .single ?_
  rw [unselected_eq h.selected]
  cases h with
  | onward hlt => exact .onward (c := c.unselected) hlt
  | ended hlt => exact .ended (c := c.unselected) hlt
  | forked origin targets hlt => exact .forked (c := c.unselected) origin targets hlt
  | branch hge hnext => exact .branch (c := c.unselected) hge hnext

-- A walk can come to every later place by going on.
theorem under_of_lt {position : Nat} {selected : Bool} (hlt : c.position < position)
    (hle : position ≤ size) : Under size { c with position, selected } c := by
  induction position, hlt using Nat.le_induction with
  | base => exact .single (.onward (c := c.unselected) hle)
  | succ position hlt ih =>
    have hstep : Follows size { c with position := position + 1, selected := false }
        { c with position, selected := false } :=
      .onward (c := { c with position, selected := false }) hle
    exact .head hstep (ih (Nat.le_of_succ_le hle))

end Cursor

namespace Visit

variable {v : Visit} {target : Option String} {run : Run} {prompt : Prompt}

theorem suspended_of_settle {outcome : Except Failure Outcome}
    (h : (v.settle target outcome run).1 = .waiting prompt) :
    ∃ o, outcome = .ok o ∧ o.result = .suspended prompt := by
  cases outcome with
  | error failure => cases h
  | ok o =>
    refine ⟨o, rfl, ?_⟩
    simp only [settle, follow] at h
    split at h <;> cases h
    assumption

theorem asks_of_visit {selected : Bool} (h : (v.visit target selected run).1 = .waiting prompt) :
    v.Asks prompt := by
  unfold visit at h
  split at h
  · cases h
  · split at h
    · cases h
    · split at h
      · cases h
      · obtain ⟨o, hbegin, hprompt⟩ := suspended_of_settle h
        exact ⟨o, leaves_begin hbegin, hprompt⟩

end Visit

namespace Run

variable {setting : Setting} {plan : Plan}

-- Whether what waits is an operation at the cursor, for an answer to what it asked.
def Left (setting : Setting) (plan : Plan) (w : Wait) : Prop :=
  ∃ op, plan.order[w.cursor.position]? = some op ∧ op.id = w.operation ∧
    (Visit.mk setting plan op).Asks w.prompt

theorem left_of_next {c c' : Cursor} {run run' : Run} {operation : String} {prompt : Prompt}
    (h : run.next setting plan c = (.waits c' operation prompt, run')) :
    c' = c ∧ Left setting plan ⟨c', operation, prompt⟩ := by
  cases hop : plan.order[c.position]? with
  | none =>
    rw [next_of_end hop, branch] at h
    split at h
    · cases h
    · split at h <;> cases h
  | some op =>
    rw [next_of_order hop] at h
    have hturn := (Prod.mk.inj h).1
    cases hmove : ((Visit.mk setting plan op).visit c.targetId c.selected run).1 with
    | waiting prompt' =>
      rw [hmove] at hturn
      cases hturn
      exact ⟨rfl, op, hop, rfl, Visit.asks_of_visit hmove⟩
    | _ =>
      rw [hmove] at hturn
      cases hturn

-- A walk waits where it began or further down.
theorem left_of_walk (c : Cursor) (run : Run) :
    ∀ w, (run.walk setting plan c).1 = some w →
      Left setting plan w ∧ (w.cursor = c ∨ Cursor.Under plan.order.length w.cursor c) := by
  induction c, run using walk_induction setting plan with
  | goes c run c' run' hturn ih =>
    intro w hw
    have hunder : Cursor.Under plan.order.length c' c := (next_follows (by rw [hturn])).under
    obtain ⟨hleft, rfl | hfurther⟩ := ih w hw
    · exact ⟨hleft, .inr hunder⟩
    · exact ⟨hleft, .inr (hfurther.trans hunder)⟩
  | ends c run run' _ => exact fun w hw => nomatch hw
  | waits c run c' operation prompt run' hturn =>
    intro w hw
    cases hw
    obtain ⟨hsame, hleft⟩ := left_of_next hturn
    exact ⟨hleft, .inl hsame⟩

end Run

namespace Visit

open Recursion

variable {v : Visit} {target : Option String} {c c' : Cursor} {answer : Answer} {run run' : Run}
  {prompt : Prompt}

-- Whether an answer is accepted and leads to the place of the operation or to an earlier one.
def leadsBack (v : Visit) (c : Cursor) (answer : Answer) (run : Run) : Bool :=
  match (reply v c.targetId answer run).1 with
  | .ok (.jump position) => position ≤ c.position
  | _ => false

-- Unless the branch is over, the operation has accepted the answer.
theorem exists_of_reply {way : Way} (h : (reply v target answer run).1 = .ok way)
    (hway : way ≠ .move .ended) :
    ∃ outcome destination stage,
      (v.accept answer).run (v.announceStart target run).toStage =
        (.ok (outcome, destination), stage) ∧
      reply v target answer run = (destined v target destination (v.settle target (.ok outcome)
        { v.announceStart target run with toStage := stage })).map .ok id := by
  have htaken : reply v target answer run =
      Recursion.answered v target ((v.announceStart target run).act (v.accept answer)) := by
    cases answer with
    | dismiss =>
      cases h
      exact absurd rfl hway
    | _ => rfl
  rw [htaken] at h ⊢
  rcases hrun : (v.accept answer).run (v.announceStart target run).toStage with ⟨result, stage⟩
  have hact : (v.announceStart target run).act (v.accept answer) =
      (result, { v.announceStart target run with toStage := stage }) := by rw [Run.act, hrun]
  rw [hact] at h ⊢
  cases result with
  | error failure => cases failure <;> cases h <;> exact absurd rfl hway
  | ok accepted => exact ⟨accepted.1, accepted.2, stage, rfl, rfl⟩

theorem jump_of_destined {destination : Option String} {moved : Move × Run} {position : Nat}
    (h : (destined v target destination moved).1 = .jump position) :
    ∃ id, destination = some id ∧ v.plan.position? id = some position := by
  obtain ⟨move, run⟩ := moved
  cases move with
  | onward =>
    cases destination with
    | none => cases h
    | some id =>
      simp only [destined] at h
      split at h
      · next position' hposition =>
        cases h
        exact ⟨id, rfl, hposition⟩
      · cases h
  | _ => cases h

-- Where nobody jumps and the branch does not end, an answer leads where the operation does.
theorem move_of_destined {destination : Option String} {moved : Move × Run} {move : Move}
    (h : (destined v target destination moved).1 = .move move) (hmove : move ≠ .ended) :
    moved.1 = move ∧ (destined v target destination moved).2 = moved.2 := by
  obtain ⟨move', run⟩ := moved
  cases move' with
  | onward =>
    cases destination with
    | none =>
      cases h
      exact ⟨rfl, rfl⟩
    | some id =>
      simp only [destined] at h
      split at h
      · cases h
      · cases h
        exact absurd rfl hmove
  | ended | forked | waiting =>
    cases h
    exact ⟨rfl, rfl⟩

-- What an operation jumps to is what it names when it accepts the answer.
theorem jump_of_reply {position : Nat} (h : (reply v target answer run).1 = .ok (.jump position)) :
    ∃ id outcome s s', (v.accept answer).run s = (.ok (outcome, some id), s') ∧
      v.plan.position? id = some position := by
  obtain ⟨outcome, destination, stage, haccept, hreply⟩ := exists_of_reply h nofun
  rw [hreply] at h
  obtain ⟨id, rfl, hposition⟩ := jump_of_destined (Except.ok.inj h)
  exact ⟨id, outcome, _, stage, haccept, hposition⟩

-- What is left waiting by an answer is what the operation left as it accepted it.
theorem suspended_of_reply (h : (reply v target answer run).1 = .ok (.move (.waiting prompt))) :
    ∃ outcome destination stage,
      (v.accept answer).run (v.announceStart target run).toStage =
        (.ok (outcome, destination), stage) ∧
      outcome.result = .suspended prompt ∧
      (reply v target answer run).2.records = v.record outcome stage.records := by
  obtain ⟨outcome, destination, stage, haccept, hreply⟩ := exists_of_reply h nofun
  rw [hreply] at h ⊢
  obtain ⟨hwaiting, hrun⟩ := move_of_destined (Except.ok.inj h) nofun
  obtain ⟨o, ho, hprompt⟩ := suspended_of_settle hwaiting
  cases ho
  refine ⟨outcome, destination, stage, haccept, hprompt, ?_⟩
  show (destined v target destination _).2.records = _
  rw [hrun]
  simp only [settle, follow, hprompt]
  rfl

theorem way_of_answered {turn : Turn} (h : Session.answered v c answer run = (.ok turn, run')) :
    ∃ way, (reply v c.targetId answer run).1 = .ok way ∧
      Recursion.turn v.plan.order.length v.op.id c way = turn ∧
      (reply v c.targetId answer run).2 = run' := by
  rw [answered_eq_reply] at h
  generalize reply v c.targetId answer run = replied at h ⊢
  obtain ⟨result, run''⟩ := replied
  cases result with
  | error failure => cases h
  | ok way =>
    cases h
    exact ⟨way, rfl, rfl, rfl⟩

-- The operation that is answered leaves the walk at a place further down, unless it jumps back.
theorem under_of_answered (hlt : c.position < v.plan.order.length)
    (h : Session.answered v c answer run = (.ok (.goes c'), run')) :
    v.leadsBack c answer run = true ∨ Cursor.Under v.plan.order.length c' c := by
  obtain ⟨way, hway, hturn, -⟩ := way_of_answered h
  rw [leadsBack, hway]
  cases way with
  | move move => exact .inr (Cursor.follows_after hlt hturn).under
  | jump position =>
    cases hturn
    obtain ⟨id, -, -, -, -, hposition⟩ := jump_of_reply hway
    by_cases hback : position ≤ c.position
    · exact .inl (decide_eq_true hback)
    · exact .inr (Cursor.under_of_lt (Nat.lt_of_not_le hback) (Plan.position?_lt hposition).le)

theorem asks_of_answered {operation : String}
    (h : Session.answered v c answer run = (.ok (.waits c' operation prompt), run')) :
    v.Asks prompt := by
  obtain ⟨way, hway, hturn, -⟩ := way_of_answered h
  cases way with
  | jump position => cases hturn
  | move move =>
    cases move <;> cases hturn
    obtain ⟨outcome, destination, stage, haccept, hprompt, -⟩ := suspended_of_reply hway
    exact ⟨outcome, .inr ⟨answer, destination, _, stage, haccept⟩, hprompt⟩

/-! What an operation keeps on record while it waits -/

-- Operations that ask something leave the records alone until they are done with an answer.
theorem records_accept {kind : PromptKind} (hposes : v.Poses kind) (answer : Answer) (s : Stage) :
    ((v.accept answer).run s).2.records = s.records := by
  have hchanges : v.Changes (.keeping fun t => t.records = s.records) :=
    { tells _ _ _ _ h := h, rolls _ _ h := h, updates _ _ _ _ _ _ h := h, uses _ _ _ _ _ _ h := h,
      creates _ _ _ _ _ _ h := h
      consumes _ _ _ _ _ _ _ hkind _ _ := by simp [Poses, hkind] at hposes }
  have hdoes := does_accept hchanges v.failures_true (fun _ _ => trivial) (fun _ => trivial)
  exact (hdoes answer s).1 rfl

-- So does one that does not accept the answer. A dismissal never comes to that.
theorem records_of_rejected {kind : PromptKind} {failure : Failure} (hposes : v.Poses kind)
    (h : Session.answered v c answer run = (.error failure, run')) :
    answer ≠ .dismiss ∧ run'.records = run.records := by
  simp only [Session.answered] at h
  split at h
  · cases h
  · next hanswer =>
    refine ⟨hanswer, ?_⟩
    have hrecords := records_accept hposes answer (v.announceStart c.targetId run).toStage
    split at h
    · next hact =>
      cases h
      rw [← (Prod.mk.inj hact).2]
      exact hrecords
    · cases h
    · cases h

-- A queue that is waited for again is shorter than it was.
theorem yields_useQueue (used queue : List String) :
    Act.Yields (fun o => ∀ prompt, o.result = .suspended prompt →
      ∃ item used' rest, o = unspent item used' rest ∧ rest.length < queue.length)
      (v.useQueue used queue) := by
  induction queue generalizing used with
  | nil => exact .pure fun prompt hprompt => nomatch hprompt
  | cons reference rest ih =>
    unfold useQueue
    refine .bind fun _ => ?_
    split
    · exact .throw _
    · refine .bind fun use => ?_
      cases use with
      | used _ =>
        intro s o s' hrun prompt hprompt
        obtain ⟨item, used', rest', ho, hshorter⟩ := ih _ s o s' hrun prompt hprompt
        exact ⟨item, used', rest', ho, Nat.lt_succ_of_lt hshorter⟩
      | pending => exact .pure fun prompt _ => ⟨_, _, rest, rfl, Nat.lt_succ_self _⟩

theorem yields_useRest (s : Stage) {o : Outcome} {s' : Stage}
    (hrun : (v.useRest answer).run s = (.ok o, s')) (hprompt : o.result = .suspended prompt) :
    ∃ item used rest, o = unspent item used rest ∧
      rest.length < (recordedNames s.records v.op.id "remaining").length := by
  cases answer with
  | acknowledge => exact yields_useQueue _ _ s o s' hrun prompt hprompt
  | _ => cases hrun

theorem unspent_of_accept {kind : PromptKind} (hposes : v.Poses kind) {s s' : Stage}
    {o : Outcome} {destination : Option String}
    (haccept : (v.accept answer).run s = (.ok (o, destination), s'))
    (hprompt : o.result = .suspended prompt) :
    ∃ item used rest, o = unspent item used rest ∧
      rest.length < (recordedNames s.records v.op.id "remaining").length := by
  by_cases hkind : kind = .acknowledge
  · obtain ⟨source, hop⟩ := use_of_poses (hkind ▸ hposes)
    simp only [accept, hop, Act.run_bind] at haccept
    split at haccept
    · next hrest =>
      cases haccept
      exact yields_useRest s hrest hprompt
    · cases haccept
  · have hsucceeds : o.result = .success := succeeds_accept hposes hkind answer s _ s' haccept
    rw [hprompt] at hsucceeds
    cases hsucceeds

-- Only an operation that uses items waits again after an answer, and for fewer items.
theorem remaining_of_answered {kind : PromptKind} {operation : String} (hposes : v.Poses kind)
    (h : Session.answered v c answer run = (.ok (.waits c' operation prompt), run')) :
    (recordedNames run'.records v.op.id "remaining").length <
      (recordedNames run.records v.op.id "remaining").length := by
  obtain ⟨way, hway, hturn, rfl⟩ := way_of_answered h
  cases way with
  | jump position => cases hturn
  | move move =>
    cases move <;> cases hturn
    obtain ⟨outcome, destination, stage, haccept, hprompt, hrecords⟩ := suspended_of_reply hway
    obtain ⟨item, used, rest, rfl, hshorter⟩ := unspent_of_accept hposes haccept hprompt
    rw [hrecords, (recordedNames_record (.part item) _).2]
    exact hshorter

end Visit

end Tabletop
