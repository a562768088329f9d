import Mathlib.Order.WellFounded
import Tabletop.Proofs.Session.Calls

-- The loop of a single call, round by round, from any place and with or without an answer. No loop
-- goes on for ever, whatever its operations come to.
namespace Tabletop

-- Where the loop stands: its cursor, and the answer as long as no operation took it.
structure Post where
  cursor : Cursor
  answer : Option Answer

namespace Post

-- The ways in which the loop over `size` operations can go on. An operation at the cursor moves it
-- in any way, or makes it jump to any other one if there is an answer to take. Between branches the
-- answer is left alone.
inductive Leads (size : Nat) : Post → Post → Prop where
  | moved {c c' : Cursor} {answer : Option Answer} (operation : String) (move : Move) :
    c.position < size → c.after size operation move = .goes c' → Leads size ⟨c', none⟩ ⟨c, answer⟩
  | jumped {c : Cursor} {answer : Answer} {position : Nat} : c.position < size → position < size →
    Leads size ⟨{ c with position, selected := true }, none⟩ ⟨c, some answer⟩
  | branched {c next : Cursor} {answer : Option Answer} : size ≤ c.position →
    Cursor.nextBranch c.forks = some next →
    Leads size ⟨{ next with selected := c.selected }, answer⟩ ⟨c, answer⟩

end Post

namespace Cursor

variable {size : Nat} {c c' : Cursor}

-- Whether the operation at the cursor was selected by name has no bearing on how long a walk is.
def unselected (c : Cursor) : Cursor := { c with selected := false }

theorem selected_nextBranch {forks : List Fork} {next : Cursor} (h : nextBranch forks = some next) :
    next.selected = false := by
  induction forks with
  | nil => cases h
  | cons fork outer ih =>
    obtain ⟨origin, resumeAt, remaining, outerTarget⟩ := fork
    cases remaining with
    | nil => exact ih h
    | cons target remaining =>
      cases h
      rfl

theorem Follows.selected (h : Follows size c' c) : c'.selected = false := by
  cases h with
  | onward => rfl
  | ended => rfl
  | forked origin targets =>
    simp only [Cursor.forked]
    split <;> rfl
  | branch _ hnext => exact selected_nextBranch hnext

theorem unselected_eq (h : c.selected = false) : c.unselected = c := by
  cases c
  cases h
  rfl

theorem follows_after {operation : String} {move : Move} (hlt : c.position < size)
    (h : c.after size operation move = .goes c') : Follows size c' c := by
  cases move with
  | onward => cases h; exact .onward hlt
  | ended => cases h; exact .ended hlt
  | forked targets => cases h; exact .forked operation targets hlt
  | waiting prompt => cases h

theorem after_unselected (operation : String) (move : Move)
    (h : c.after size operation move = .goes c') :
    c.unselected.after size operation move = .goes c' := by
  cases move with
  | waiting prompt => cases h
  | _ => exact h

end Cursor

namespace Post

variable {size : Nat} {p p' : Post}

-- An answer that is still there counts for more than all that a walk without one can do.
def weight (p : Post) : Nat × Cursor := (p.answer.toList.length, p.cursor.unselected)

theorem Leads.weight_lt (h : Leads size p' p) :
    Prod.Lex (· < ·) (Cursor.Follows size) p'.weight p.weight := by
  cases h with
  | @moved c c' answer operation move hlt hafter =>
    have hfollows : Cursor.Follows size c' c.unselected :=
      Cursor.follows_after hlt (Cursor.after_unselected operation move hafter)
    cases answer with
    | none =>
      rw [weight, Cursor.unselected_eq hfollows.selected]
      exact .right _ hfollows
    | some answer => exact .left _ _ Nat.one_pos
  | jumped => exact .left _ _ Nat.one_pos
  | @branched c next answer hge hnext =>
    have hfollows : Cursor.Follows size next c.unselected := .branch hge hnext
    have hsame : Cursor.unselected { next with selected := c.selected } = next :=
      Cursor.unselected_eq hfollows.selected
    rw [weight, hsame]
    exact .right _ hfollows

theorem leads_wf (size : Nat) : WellFounded (Leads size) :=
  Subrelation.wf Leads.weight_lt
    (InvImage.wf weight (WellFounded.prod_lex Nat.lt_wfRel.wf (Cursor.follows_wf size)))

instance (size : Nat) : IsWellFounded Post (Leads size) := ⟨leads_wf size⟩

-- An operation takes the answer. Without one it leads to the next operation or to the end of its
-- branch. If it forks then into continuations that start behind it.
structure Visited (size : Nat) (p p' : Post) : Prop where
  answer : p'.answer = none
  position : p.answer = none →
    p'.cursor.position = p.cursor.position + 1 ∨ p'.cursor.position = size
  forks : p'.cursor.forks = p.cursor.forks ∨
    ∃ fork, p'.cursor.forks = fork :: p.cursor.forks ∧ p.cursor.position < fork.resumeAt

theorem Leads.visited (h : Leads size p' p) (hlt : p.cursor.position < size) :
    Visited size p p' := by
  cases h with
  | @moved c c' answer operation move _ hafter =>
    cases move with
    | onward =>
      cases hafter
      exact ⟨rfl, fun _ => .inl rfl, .inl rfl⟩
    | ended =>
      cases hafter
      exact ⟨rfl, fun _ => .inr rfl, .inl rfl⟩
    | forked targets =>
      cases hafter
      simp only [Cursor.forked]
      split
      · exact ⟨rfl, fun _ => .inr rfl, .inl rfl⟩
      · exact ⟨rfl, fun _ => .inr rfl, .inr ⟨_, rfl, Nat.lt_succ_self _⟩⟩
    | waiting prompt => cases hafter
  | jumped => exact ⟨rfl, by simp, .inl rfl⟩
  | branched hge _ => exact absurd hlt (Nat.not_lt.2 hge)

-- What is selected stays within the plan.
theorem Leads.selected (h : Leads size p' p)
    (hp : p.cursor.selected = true → p.cursor.position < size) :
    p'.cursor.selected = true → p'.cursor.position < size := by
  cases h with
  | @moved c c' answer operation move hlt hafter =>
    have hunselected : c'.selected = false := (Cursor.follows_after hlt hafter).selected
    simp [hunselected]
  | jumped _ hposition => exact fun _ => hposition
  | branched hge _ => exact fun hselected => absurd (hp hselected) (Nat.not_lt.2 hge)

end Post

-- What a round comes to: the loop goes on, or it is left with or without a question, or the
-- answer is not accepted.
inductive Round where
  | goes (p : Post)
  | closed (wait : Option Wait)
  | refused (failure : Failure)

namespace Round

def ofTurn (answer : Option Answer) : Turn → Round
  | .goes c => .goes ⟨c, answer⟩
  | .ends => .closed none
  | .waits c operation prompt => .closed (some ⟨c, operation, prompt⟩)

def IsOver : Round → Prop
  | .goes _ => False
  | _ => True

end Round

-- A continuation starts as selected as the end of the branch before it was.
def Turn.withSelected (selected : Bool) : Turn → Turn
  | .goes c => .goes { c with selected }
  | turn => turn

theorem Plan.position?_lt {plan : Plan} {id : String} {position : Nat}
    (h : plan.position? id = some position) : position < plan.order.length :=
  (List.findIdx?_eq_some_iff_getElem.1 h).1

namespace Run

variable {setting : Setting} {plan : Plan} {c : Cursor} {run : Run} {p : Post}

def round (setting : Setting) (plan : Plan) (p : Post) (run : Run) : Round × Run :=
  match plan.order[p.cursor.position]?, p.answer with
  | none, answer =>
    let (turn, run) := run.branch p.cursor
    (.ofTurn answer (turn.withSelected p.cursor.selected), run)
  | some op, none =>
    let (move, run) := (Visit.mk setting plan op).visit p.cursor.targetId p.cursor.selected run
    (.ofTurn none (p.cursor.after plan.order.length op.id move), run)
  | some op, some answer =>
    match Session.answered ⟨setting, plan, op⟩ p.cursor answer run with
    | (.ok turn, run) => (.ofTurn none turn, run)
    | (.error failure, run) => (.refused failure, run)

-- So many rounds, or fewer if the loop is left before.
def rounds (setting : Setting) (plan : Plan) : Nat → Post → Run → Round × Run
  | 0, p, run => (.goes p, run)
  | n + 1, p, run =>
    match run.round setting plan p with
    | (.goes p, run) => rounds setting plan n p run
    | stopped => stopped

theorem ofTurn_eq_goes {answer : Option Answer} {turn : Turn} {p : Post}
    (h : Round.ofTurn answer turn = .goes p) : ∃ c, turn = .goes c ∧ p = ⟨c, answer⟩ := by
  cases turn with
  | goes c => cases h; exact ⟨c, rfl, rfl⟩
  | ends => cases h
  | waits c operation prompt => cases h

-- Only an answer that names where to go on makes an operation jump.
theorem leads_answered {v : Visit} {c c' : Cursor} {answer : Answer} {run run' : Run}
    (hlt : c.position < v.plan.order.length)
    (h : Session.answered v c answer run = (.ok (.goes c'), run')) :
    Post.Leads v.plan.order.length ⟨c', none⟩ ⟨c, some answer⟩ := by
  have hended : Post.Leads v.plan.order.length ⟨c.ended v.plan.order.length, none⟩
      ⟨c, some answer⟩ := .moved v.op.id .ended hlt rfl
  have hafter : ∀ destination moved, (Session.afterAnswer v c destination moved).1 = .goes c' →
      Post.Leads v.plan.order.length ⟨c', none⟩ ⟨c, some answer⟩ := by
    rintro destination ⟨move, run⟩ h
    simp only [Session.afterAnswer] at h
    split at h
    · split at h
      · next position hposition =>
        cases h
        exact .jumped hlt (Plan.position?_lt hposition)
      · cases h
        exact hended
    · next heq _ =>
      cases heq
      exact .moved v.op.id move hlt h
  simp only [Session.answered] at h
  split at h
  · cases h
    exact hended
  · split at h
    · cases h
    · cases h
      exact hended
    · simp only [Prod.mk.injEq, Except.ok.injEq] at h
      exact hafter _ _ h.1

theorem leads_round {p' : Post} {run' : Run}
    (h : run.round setting plan p = (.goes p', run')) :
    Post.Leads plan.order.length p' p := by
  obtain ⟨c, answer⟩ := p
  simp only [round] at h
  split at h
  · next answer' hnone =>
    have hge : plan.order.length ≤ c.position := List.getElem?_eq_none_iff.1 hnone
    simp only [Prod.mk.injEq] at h
    obtain ⟨next, hnext, rfl⟩ := ofTurn_eq_goes h.1
    simp only [branch] at hnext
    split at hnext
    · next hbranch => cases hnext; exact .branched hge hbranch
    · split at hnext <;> cases hnext
  · next op hop =>
    have hlt : c.position < plan.order.length := (List.getElem?_eq_some_iff.1 hop).1
    simp only [Prod.mk.injEq] at h
    obtain ⟨next, hnext, rfl⟩ := ofTurn_eq_goes h.1
    exact .moved op.id _ hlt hnext
  · next op answer' hop =>
    have hlt : c.position < plan.order.length := (List.getElem?_eq_some_iff.1 hop).1
    split at h
    · next turn run'' hanswered =>
      simp only [Prod.mk.injEq] at h
      obtain ⟨next, rfl, rfl⟩ := ofTurn_eq_goes h.1
      exact leads_answered (v := ⟨setting, plan, op⟩) hlt hanswered
    · cases h

theorem rounds_of_goes {p' : Post} {run' : Run} (n : Nat)
    (h : run.round setting plan p = (.goes p', run')) :
    run.rounds setting plan (n + 1) p = run'.rounds setting plan n p' := by
  rw [rounds, h]

theorem rounds_of_isOver {stop : Round} {run' : Run} (n : Nat)
    (h : run.round setting plan p = (stop, run')) (hover : stop.IsOver) :
    run.rounds setting plan (n + 1) p = (stop, run') := by
  cases stop with
  | goes p' => cases hover
  | _ => rw [rounds, h]

theorem rounds_over (setting : Setting) (plan : Plan) (p : Post) (run : Run) :
    ∃ n, (run.rounds setting plan n p).1.IsOver := by
  induction p using (Post.leads_wf plan.order.length).induction generalizing run with
  | _ p ih =>
    rcases hround : run.round setting plan p with ⟨stop, run'⟩
    cases stop with
    | goes p' =>
      obtain ⟨n, hn⟩ := ih p' (leads_round hround) run'
      exact ⟨n + 1, by rwa [rounds_of_goes n hround]⟩
    | closed wait => exact ⟨1, by rw [rounds_of_isOver 0 hround trivial]; trivial⟩
    | refused failure => exact ⟨1, by rw [rounds_of_isOver 0 hround trivial]; trivial⟩

theorem withSelected_branch : (run.branch c).1.withSelected false = (run.branch c).1 := by
  simp only [branch]
  split
  · next next hnext =>
    have hunselected : next.unselected = next :=
      Cursor.unselected_eq (Cursor.selected_nextBranch hnext)
    exact congrArg Turn.goes hunselected
  · split <;> rfl

-- Without an answer, and unless it was selected and is at the end of a branch, a round is a turn.
theorem round_of_next {turn : Turn} {run' : Run}
    (hselected : c.selected = true → c.position < plan.order.length)
    (h : run.next setting plan c = (turn, run')) :
    run.round setting plan ⟨c, none⟩ = (.ofTurn none turn, run') := by
  simp only [next] at h
  simp only [round]
  split at h
  · next op hop =>
    simp only [hop]
    rw [← (Prod.mk.inj h).1, ← (Prod.mk.inj h).2]
  · next hnone =>
    have hge : plan.order.length ≤ c.position := List.getElem?_eq_none_iff.1 hnone
    have hunselected : c.selected = false :=
      Bool.eq_false_iff.2 fun h => absurd (hselected h) (Nat.not_lt.2 hge)
    simp only [hnone, hunselected]
    rw [withSelected_branch, h]

-- A walk is made of rounds without an answer.
theorem rounds_walk (setting : Setting) (plan : Plan) (c : Cursor) (run : Run)
    (hselected : c.selected = true → c.position < plan.order.length) :
    ∃ n, run.rounds setting plan n ⟨c, none⟩ =
      (.closed (run.walk setting plan c).1, (run.walk setting plan c).2) := by
  induction c, run using walk_induction setting plan with
  | goes c run c' run' hnext ih =>
    have hfollows : Cursor.Follows plan.order.length c' c := next_follows (by rw [hnext])
    obtain ⟨n, hn⟩ := ih (by simp [hfollows.selected])
    exact ⟨n + 1, by rw [rounds_of_goes n (round_of_next hselected hnext), hn]⟩
  | ends c run run' hnext =>
    exact ⟨1, rounds_of_isOver 0 (round_of_next hselected hnext) trivial⟩
  | waits c run c' operation prompt run' hnext =>
    exact ⟨1, rounds_of_isOver 0 (round_of_next hselected hnext) trivial⟩

end Run

namespace Session

variable {setting : Setting} {s : Session} {c : Cursor} {run : Run}

theorem rounds_drive (setting : Setting) (s : Session) (c : Cursor) (run : Run)
    (hselected : c.selected = true → c.position < s.activity.toPlan.order.length) :
    ∃ n wait run', run.rounds setting s.activity.toPlan n ⟨c, none⟩ = (.closed wait, run') ∧
      s.drive setting c run = s.close setting wait run' := by
  obtain ⟨n, hn⟩ := Run.rounds_walk setting s.activity.toPlan c run hselected
  exact ⟨n, _, _, hn, rfl⟩

-- An answer takes the first round, and the walk after it the other ones.
theorem rounds_proceed (setting : Setting) (s : Session) (op : Operation) (c : Cursor)
    {answer : Answer} {turn : Turn} {run run' : Run}
    (hop : s.activity.toPlan.order[c.position]? = some op)
    (h : answered ⟨setting, s.activity.toPlan, op⟩ c answer run = (.ok turn, run')) :
    ∃ n wait run'',
      run.rounds setting s.activity.toPlan n ⟨c, some answer⟩ = (.closed wait, run'') ∧
      s.proceed setting turn run' = s.close setting wait run'' := by
  have hround : run.round setting s.activity.toPlan ⟨c, some answer⟩ =
      (.ofTurn none turn, run') := by
    simp only [Run.round, hop, h]
  cases turn with
  | goes c' =>
    have hlt : c.position < s.activity.toPlan.order.length := (List.getElem?_eq_some_iff.1 hop).1
    have hselected : c'.selected = true → c'.position < s.activity.toPlan.order.length :=
      (Run.leads_round hround).selected fun _ => hlt
    obtain ⟨n, wait, run'', hn, hdrive⟩ := rounds_drive setting s c' run' hselected
    exact ⟨n + 1, wait, run'', by rw [Run.rounds_of_goes n hround, hn], hdrive⟩
  | ends => exact ⟨1, none, run', Run.rounds_of_isOver 0 hround trivial, rfl⟩
  | waits c' operation prompt =>
    exact ⟨1, _, run', Run.rounds_of_isOver 0 hround trivial, rfl⟩

-- An answer that reaches the operation that waits starts such a loop, and the call tells how it
-- was left.
theorem rounds_resume {setting : Setting} {s : Session} {p : Pending} {op : Operation}
    (answer : Answer) (hp : s.activity.pending = some p)
    (hop : waiting? s.activity.toPlan p = some op) :
    ∃ n stop run', (s.bind p.target).run.rounds setting s.activity.toPlan n
        ⟨⟨p.position, p.target, p.forks, true⟩, some answer⟩ = (stop, run') ∧
      ((∃ failure, stop = .refused failure ∧
          s.resume setting p.token answer = (.error failure, (s.bind p.target).keep run')) ∨
        ∃ wait, stop = .closed wait ∧ s.resume setting p.token answer =
          ((s.bind p.target).withoutPending.close setting wait run').map .ok id) := by
  obtain ⟨hplace, -⟩ := waiting?_eq_some_iff.1 hop
  rw [resume_waiting answer hp hop]
  rcases hanswered : answered ⟨setting, s.activity.toPlan, op⟩
    ⟨p.position, p.target, p.forks, true⟩ answer (s.bind p.target).run with ⟨result, run'⟩
  cases result with
  | error failure =>
    refine ⟨1, .refused failure, run', ?_, .inl ⟨failure, rfl, rfl⟩⟩
    refine Run.rounds_of_isOver 0 ?_ trivial
    simp only [Run.round, hplace, hanswered]
  | ok turn =>
    obtain ⟨n, wait, run'', hn, hproceed⟩ :=
      rounds_proceed setting (s.bind p.target).withoutPending op
        ⟨p.position, p.target, p.forks, true⟩ hplace hanswered
    refine ⟨n, .closed wait, run'', hn, .inr ⟨wait, rfl, ?_⟩⟩
    dsimp only
    rw [hproceed]

-- No loop goes on for ever, from any place, whatever its operations come to: an operation jumps
-- only when it takes the answer, and forks only into continuations that start behind it. So the
-- loop of a call is left after finitely many rounds, and the walk and the answer of a session are
-- such loops.
theorem loop_over (setting : Setting) (s : Session) :
    let plan := s.activity.toPlan
    let size := plan.order.length
    (∀ course : Nat → Post, ∃ n, ¬ Post.Leads size (course (n + 1)) (course n)) ∧
    (∀ p p', Post.Leads size p' p → p.cursor.position < size → Post.Visited size p p') ∧
    (∀ p run p' run', Run.round setting plan p run = (.goes p', run') → Post.Leads size p' p) ∧
    (∀ p run, ∃ n, (Run.rounds setting plan n p run).1.IsOver) ∧
    (∀ c run, (c.selected = true → c.position < size) →
      ∃ n wait run', Run.rounds setting plan n ⟨c, none⟩ run = (.closed wait, run') ∧
        s.drive setting c run = s.close setting wait run') ∧
    (∀ p op answer, s.activity.pending = some p → waiting? plan p = some op →
      ∃ n stop run', (s.bind p.target).run.rounds setting plan n
          ⟨⟨p.position, p.target, p.forks, true⟩, some answer⟩ = (stop, run') ∧
        ((∃ failure, stop = .refused failure ∧
            s.resume setting p.token answer = (.error failure, (s.bind p.target).keep run')) ∨
          ∃ wait, stop = .closed wait ∧ s.resume setting p.token answer =
            ((s.bind p.target).withoutPending.close setting wait run').map .ok id)) :=
  ⟨WellFounded.not_rel_apply_succ, fun _ _ h => h.visited,
    fun _ _ _ _ => Run.leads_round, Run.rounds_over setting _, rounds_drive setting s,
    fun _ _ answer => rounds_resume answer⟩

end Session

end Tabletop
