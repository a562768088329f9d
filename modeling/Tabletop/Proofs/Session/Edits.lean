import Tabletop.Proofs.Session.Rejection
import Tabletop.Proofs.Session.Telling
import Tabletop.Proofs.Walk.Owing

-- The branches that a prompt still owes, and where they start when the operations are changed while
-- it is unanswered.
namespace Tabletop

-- The places of a walk that goes on with a turn.
def Turn.places (setting : Setting) (plan : Plan) (run : Run) : Turn → List Place
  | .goes c => run.places setting plan c
  | _ => []

theorem Turn.place_of_branch {setting : Setting} {plan : Plan} {run : Run} {turn : Turn}
    {b : Branch} (hb : b ∈ plan.branches (turn.places setting plan run)) :
    ∃ place ∈ turn.places setting plan run,
      place.cursor.position = b.position ∧ place.cursor.target = some b.target := by
  cases turn with
  | goes c => exact Run.place_of_branch hb
  | ends | waits => cases hb

namespace Session

def edited (operations : List Operation) (s : Session) : Session :=
  { s with activity := { s.activity with operations } }

-- What is owed while a prompt is unanswered.
def owed (s : Session) : List Branch :=
  match s.activity.pending with
  | none => []
  | some p => p.cursor.owed

-- The places of the walk that goes on after an answer.
def places (setting : Setting) (s : Session) (token : String) (answer : Answer) : List Place :=
  match s.activity.pending with
  | none => []
  | some p =>
    if p.token ≠ token then []
    else
      match waiting? s.activity.toPlan p with
      | none => []
      | some op =>
        match answered ⟨setting, s.activity.toPlan, op⟩ p.cursor answer (s.bind p.target).run with
        | (.error _, _) => []
        | (.ok turn, run) => turn.places setting s.activity.toPlan run

variable {setting : Setting} {s t : Session} {p : Pending} {op : Operation} {run : Run}

theorem owed_of_pending (hp : s.activity.pending = some p) : s.owed = p.cursor.owed := by
  simp only [owed, hp]

theorem owed_close (setting : Setting) (wait : Option Wait) (run : Run)
    (hpending : s.activity.pending = none) :
    (s.close setting wait run).2.owed = (wait.map fun w => w.cursor.owed).getD [] := by
  cases wait with
  | none =>
    have hnone : (s.close setting none run).2.activity.pending = none := hpending
    simp only [owed, hnone, Option.map_none, Option.getD_none]
  | some w => rfl

theorem deals_drive (setting : Setting) (c : Cursor) (run : Run)
    (hpending : s.activity.pending = none) :
    s.activity.toPlan.Deals c.owed
      (s.activity.toPlan.branches (run.places setting s.activity.toPlan c))
      (s.drive setting c run).2.owed := by
  rw [drive, owed_close setting _ _ hpending]
  exact Run.deals_walk setting s.activity.toPlan c run

theorem deals_proceed (setting : Setting) (turn : Turn) (run : Run)
    (hpending : s.activity.pending = none) :
    s.activity.toPlan.Deals turn.owed
      (s.activity.toPlan.branches (turn.places setting s.activity.toPlan run))
      (s.proceed setting turn run).2.owed := by
  cases turn with
  | goes c => exact deals_drive setting c run hpending
  | ends =>
    rw [proceed, owed_close setting none run hpending]
    exact .refl _ []
  | waits c operation prompt =>
    rw [proceed, owed_close setting _ run hpending]
    exact .refl _ c.owed

-- No branch starts with an answer itself, not even where the walk jumps.
theorem deals_answered {plan : Plan} {c : Cursor} {answer : Answer} {run' : Run} {turn : Turn}
    (hop : plan.order[c.position]? = some op)
    (hanswered : answered ⟨setting, plan, op⟩ c answer run = (.ok turn, run')) :
    plan.Deals c.owed [] turn.owed := by
  rw [Recursion.answered_eq_reply] at hanswered
  generalize Recursion.reply ⟨setting, plan, op⟩ c.targetId answer run = replied at hanswered
  obtain ⟨way, run''⟩ := replied
  cases way with
  | error failure => cases hanswered
  | ok way =>
    cases hanswered
    cases way with
    | move move => exact Cursor.deals_after hop _ move
    | jump position => exact .refl plan c.owed

theorem places_of_answered {answer : Answer} {turn : Turn} (hp : s.activity.pending = some p)
    (hop : waiting? s.activity.toPlan p = some op)
    (hanswered : answered ⟨setting, s.activity.toPlan, op⟩ p.cursor answer (s.bind p.target).run =
      (.ok turn, run)) :
    s.places setting p.token answer = turn.places setting s.activity.toPlan run := by
  simp only [places, hp, hop, hanswered, ne_eq, not_true_eq_false, if_false]

-- What an answer leads to starts branches as they are owed, each at a place of its own.
theorem deals_resume {token : String} {answer : Answer} {report : Report}
    (h : s.resume setting token answer = (.ok report, t)) :
    s.activity.toPlan.Deals s.owed
      (s.activity.toPlan.branches (s.places setting token answer)) t.owed ∧
    ∀ b ∈ s.activity.toPlan.branches (s.places setting token answer),
      ∃ place ∈ s.places setting token answer,
        place.cursor.position = b.position ∧ place.cursor.target = some b.target := by
  have hresuming := s.resuming setting token answer
  rw [h] at hresuming
  cases hresuming with
  | @taken p op turn run hp htoken hop hanswered =>
    subst htoken
    rw [owed_of_pending hp, places_of_answered hp hop hanswered]
    have hanswer := deals_answered (c := p.cursor) (waiting?_eq_some_iff.1 hop).1 hanswered
    have hproceed := deals_proceed (s := (s.bind p.target).withoutPending) setting turn run rfl
    exact ⟨hanswer.trans hproceed, fun b hb => Turn.place_of_branch hb⟩

-- A walk that begins outside of all forks owes what it does behind the operations that forked.
theorem behind_drive (setting : Setting) (s : Session) (position : Nat) (target : Option Snapshot)
    (selected : Bool) (run : Run) (hpending : s.activity.pending = none) :
    ∀ b ∈ (s.drive setting ⟨position, target, [], selected⟩ run).2.owed,
      s.activity.toPlan.Behind b := by
  have hdeals := deals_drive setting ⟨position, target, [], selected⟩ run hpending
  exact fun b hb => hdeals.behind_iff.2 (List.forall_mem_nil _) b (List.mem_append_right _ hb)

-- Without edits, all that is ever owed starts behind the operation that forked.
theorem behind_call (setting : Setting) (c : Call) (h : ∀ b ∈ s.owed, s.activity.toPlan.Behind b) :
    ∀ b ∈ (s.call setting c).2.owed, s.activity.toPlan.Behind b := by
  cases c with
  | start origin =>
    have hstarting := s.starting setting origin
    rw [call]
    generalize s.start setting origin = called at hstarting ⊢
    cases hstarting with
    | invalid => exact h
    | unknown => exact List.forall_mem_nil _
    | walked => exact behind_drive setting s.begun _ _ _ _ rfl
  | continueFrom id =>
    have hcontinuing := s.continuing setting id
    rw [call]
    generalize s.continueFrom setting id = called at hcontinuing ⊢
    cases hcontinuing with
    | unknown => exact h
    | walked => exact behind_drive setting s.withoutPending _ _ _ _ rfl
  | resume token answer =>
    rw [call]
    rcases hresume : s.resume setting token answer with ⟨result, t⟩
    cases result with
    | ok report =>
      exact fun b hb => (deals_resume hresume).1.behind_iff.2 h b (List.mem_append_right _ hb)
    | error failure =>
      have hresuming := s.resuming setting token answer
      rw [hresume] at hresuming
      cases hresuming with
      | unasked | unknown | displaced | refused => exact h

theorem behind_after (calls : List (Setting × Call)) (h : ∀ b ∈ s.owed, s.activity.toPlan.Behind b) :
    ∀ b ∈ (s.after calls).owed, s.activity.toPlan.Behind b := by
  induction calls generalizing s with
  | nil => exact h
  | cons c calls ih =>
    obtain ⟨setting, c⟩ := c
    have hplan : (s.call setting c).2.activity.toPlan = s.activity.toPlan := toPlan_call s c
    have hcall := behind_call setting c h
    rw [← hplan] at hcall ⊢
    exact ih hcall

/-! Edits under a prompt -/

-- An operation that is no longer in its place takes no answer, and nothing changes.
theorem resume_displaced (hp : s.activity.pending = some p)
    (hnone : waiting? s.activity.toPlan p = none) (answer : Answer) :
    s.resume setting p.token answer = (.error (displaced p), s) := by
  simp only [resume, hp, ne_eq, not_true_eq_false, if_false, hnone]

-- One that is in its place can only refuse its answer. All is owed as before then.
theorem resume_refused (hp : s.activity.pending = some p)
    (hop : waiting? s.activity.toPlan p = some op) {answer : Answer} {failure : Failure}
    (h : s.resume setting p.token answer = (.error failure, t)) :
    (∃ id message, failure = .rejected id message) ∧ t.owed = p.cursor.owed := by
  rw [resume_waiting answer hp hop] at h
  split at h
  · next failure run hanswered =>
    cases h
    exact ⟨answered_error hanswered, owed_of_pending (s := (s.bind p.target).keep run) hp⟩
  · cases h

-- Whoever dismisses the question is not refused, and the branch that is owed first starts.
theorem resume_dismissed (setting : Setting) (hp : s.activity.pending = some p)
    (hop : waiting? s.activity.toPlan p = some op) :
    ∃ report t, s.resume setting p.token .dismiss = (.ok report, t) ∧
      ∀ b ∈ p.cursor.owed.head?,
        b ∈ s.activity.toPlan.branches (s.places setting p.token .dismiss) := by
  refine ⟨_, _, resume_waiting .dismiss hp hop, fun b hb => ?_⟩
  rw [places_of_answered hp hop rfl]
  refine List.mem_filterMap.2 ⟨_, Run.self_mem_places setting s.activity.toPlan _ _, ?_⟩
  have hend : s.activity.toPlan.order[s.activity.toPlan.order.length]? = none :=
    List.getElem?_eq_none (Nat.le_refl _)
  simp only [Plan.branch?, Cursor.ended, hend]
  exact hb

-- When the operations are changed under a prompt, only the operation that waits has to be in its
-- place. Where it is not, nothing happens. Where it is, an answer starts the branches that are owed
-- at the positions that were stored, and all of them start behind the operation that forked if and
-- only if that is where all stored positions still are. The first of them starts as soon as the
-- question is dismissed, whether or not that is its place.
theorem resume_edited (hp : s.activity.pending = some p) (operations : List Operation)
    (setting : Setting) :
    let t := s.edited operations
    let plan := t.activity.toPlan
    (waiting? plan p = none → ∀ answer,
      t.resume setting p.token answer = (.error (displaced p), t)) ∧
    ((waiting? plan p).isSome →
      (∀ answer failure u, t.resume setting p.token answer = (.error failure, u) →
        (∃ id message, failure = .rejected id message) ∧ u.owed = p.cursor.owed) ∧
      (∀ answer report u, t.resume setting p.token answer = (.ok report, u) →
        plan.Deals p.cursor.owed (plan.branches (t.places setting p.token answer)) u.owed ∧
        ((∀ b ∈ plan.branches (t.places setting p.token answer) ++ u.owed, plan.Behind b) ↔
          ∀ b ∈ p.cursor.owed, plan.Behind b) ∧
        ∀ b ∈ plan.branches (t.places setting p.token answer),
          ∃ place ∈ t.places setting p.token answer,
            place.cursor.position = b.position ∧ place.cursor.target = some b.target) ∧
      ∃ report u, t.resume setting p.token .dismiss = (.ok report, u) ∧
        ∀ b ∈ p.cursor.owed.head?, b ∈ plan.branches (t.places setting p.token .dismiss)) := by
  intro t plan
  have ht : t.activity.pending = some p := hp
  refine ⟨fun hnone => resume_displaced ht hnone, fun hsome => ?_⟩
  obtain ⟨op, hop⟩ := Option.isSome_iff_exists.1 hsome
  refine ⟨fun answer failure u h => resume_refused ht hop h, fun answer report u h => ?_,
    resume_dismissed setting ht hop⟩
  obtain ⟨hdeals, hplaces⟩ := deals_resume h
  rw [owed_of_pending ht] at hdeals
  exact ⟨hdeals, hdeals.behind_iff, hplaces⟩

-- The question stays in its place. The operation behind which it is asked once more, about the second
-- goblin, now comes after it.
def reshuffled : List Operation := [
  { id := "note", kind := .message "note" },
  { id := "ask", kind := .selectOption [⟨"Go", .null, none⟩] none },
  { id := "each", kind := .target .each },
  { id := "strike", kind := .message "strike" }]

theorem order_reshuffled (s : Session) (i : Nat) (id : String)
    (h : ["note", "ask", "each", "strike"][i]? = some id) :
    ∃ op, (s.edited reshuffled).activity.toPlan.order[i]? = some op ∧ op.id = id := by
  have horder : (s.edited reshuffled).activity.toPlan.order.map Operation.id =
      ["note", "ask", "each", "strike"] := by cbv
  rw [← horder, List.getElem?_map] at h
  exact Option.map_eq_some_iff.1 h

theorem not_behind_reshuffled (s : Session) {b : Branch} (horigin : b.origin = "each")
    (hposition : b.position = 1) : ¬ (s.edited reshuffled).activity.toPlan.Behind b := by
  rintro ⟨position, op, hop, hid, hnext⟩
  obtain ⟨first, hfirst, hnote⟩ := s.order_reshuffled 0 "note" rfl
  obtain rfl : position = 0 := by omega
  obtain rfl : first = op := by simpa [hfirst] using hop
  simp [horigin, hnote] at hid

-- So the branch of the second goblin starts with the question, two places before it should.
theorem resume_edited_parting :
    let asked := (parting.start bargain none).2
    let t := asked.edited reshuffled
    let plan := t.activity.toPlan
    ∃ p, asked.activity.pending = some p ∧ (waiting? plan p).isSome ∧
      ∃ b report u, p.cursor.owed = [b] ∧ b.origin = "each" ∧ b.position = 1 ∧
        b.target.id = "g2" ∧ asked.activity.toPlan.Behind b ∧ ¬ plan.Behind b ∧
        t.resume bargain p.token .dismiss = (.ok report, u) ∧
        b ∈ plan.branches (t.places bargain p.token .dismiss) := by
  have hpending : (parting.start bargain none).2.activity.pending.map (fun p =>
      (p.operation, p.position)) = some ("ask", 1) := by cbv
  have howed : (parting.start bargain none).2.owed.map (fun b =>
      (b.origin, b.position, b.target.id)) = [("each", 1, "g2")] := by cbv
  have hbehind : ∀ b ∈ (parting.start bargain none).2.owed, parting.activity.toPlan.Behind b :=
    behind_call bargain (.start none) (List.forall_mem_nil _)
  have hkept : (parting.start bargain none).2.activity.toPlan = parting.activity.toPlan :=
    toPlan_call parting (.start none)
  generalize (parting.start bargain none).2 = asked at hpending howed hbehind hkept ⊢
  obtain ⟨p, hp, hat⟩ := Option.map_eq_some_iff.1 hpending
  obtain ⟨hoperation, hposition⟩ := Prod.mk.inj hat
  rw [owed_of_pending hp] at howed hbehind
  obtain ⟨b, hb, htold⟩ := List.map_eq_singleton_iff.1 howed
  simp only [Prod.mk.injEq] at htold
  obtain ⟨horigin, hstart, htarget⟩ := htold
  obtain ⟨op, hop, hid⟩ := asked.order_reshuffled 1 "ask" rfl
  have hwaiting : waiting? (asked.edited reshuffled).activity.toPlan p = some op :=
    waiting?_eq_some_iff.2 ⟨by rw [hposition]; exact hop, by rw [hid, hoperation]⟩
  have hwaits : (waiting? (asked.edited reshuffled).activity.toPlan p).isSome := by
    rw [hwaiting]
    rfl
  obtain ⟨-, hinPlace⟩ := resume_edited hp reshuffled bargain
  obtain ⟨-, -, report, u, hresume, hstarts⟩ := hinPlace hwaits
  have hmem : b ∈ p.cursor.owed := by simp [hb]
  have hhead : b ∈ p.cursor.owed.head? := by simp [hb]
  exact ⟨p, hp, hwaits, b, report, u, hb, horigin, hstart, htarget, hkept ▸ hbehind b hmem,
    asked.not_behind_reshuffled horigin hstart, hresume, hstarts b hhead⟩

end Session

end Tabletop
