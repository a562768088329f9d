import Mathlib
import Tabletop.Conversation
import Tabletop.Proofs.Session.Descent

-- Conversations with a note of every answer. A prompt is dismissed when three answers to it were
-- not accepted, and not before.
namespace Tabletop

-- An answer to the prompt of this token: whether the audience was asked for it, whether it was
-- accepted, and whether it led back.
structure Exchange where
  token : String
  prompt : Prompt
  answer : Answer
  asked : Bool
  taken : Bool
  back : Bool

namespace Conversation

def exchange (setting : Setting) (token : String) (prompt : Prompt) (answer : Answer)
    (c : Conversation) : Exchange where
  token
  prompt
  answer
  asked := c.rejections < patience
  taken := (c.session.resume setting token answer).1.isOk
  back := c.session.leadsBack setting answer

variable {m : Type → Type} [Monad m]

-- The answer that is given to a prompt.
def ask (audience : Audience m) (prompt : Prompt) (c : Conversation) : m (Except Failure Answer) :=
  if patience ≤ c.rejections then pure (.ok .dismiss) else audience.answer prompt

-- Goes on as a conversation does, and notes all answers.
def goOnNoting (setting : Setting) (audience : Audience m) :
    Nat → Conversation → m (List Exchange × Option (Except Failure Report) × Session)
  | limit, c =>
    match c.report.status, limit with
    | .suspended _ _, 0 => return ([], none, c.session)
    | .suspended token prompt, limit + 1 => do
      let answer ← c.ask audience prompt
      match answer with
      | .error failure => return ([], some (.error failure), c.session)
      | .ok answer =>
        let note := c.exchange setting token prompt answer
        let (result, next) := c.reply setting token answer
        audience.hear (next.session.events.drop c.session.events.length)
        match result with
        | .ok () => do
          let (notes, told) ← goOnNoting setting audience limit next
          return (note :: notes, told)
        | .error failure => return ([note], some (.error failure), next.session)
    | _, _ => return ([], some (.ok c.report), c.session)

end Conversation

-- A conversation with its notes.
def Session.converseNoting {m : Type → Type} [Monad m] (setting : Setting) (origin : Option String)
    (audience : Audience m) (limit : Nat) (s : Session) :
    m (List Exchange × Option (Except Failure Report) × Session) := do
  let (result, next) := s.start setting origin
  audience.hear (next.events.drop s.events.length)
  match result with
  | .error failure => return ([], some (.error failure), next)
  | .ok report => Conversation.goOnNoting setting audience limit ⟨next, report, 0⟩

namespace Conversation

variable {m : Type → Type} [Monad m] {setting : Setting}

theorem goOn_finished (audience : Audience m) (limit : Nat) {c : Conversation}
    (h : c.report.isSuspended = false) :
    goOn setting audience limit c = pure (some (.ok c.report), c.session) := by
  unfold goOn
  split
  · next hstatus => simp [Report.isSuspended, hstatus] at h
  · next hstatus => simp [Report.isSuspended, hstatus] at h
  · rfl

theorem goOnNoting_finished (audience : Audience m) (limit : Nat) {c : Conversation}
    (h : c.report.isSuspended = false) :
    goOnNoting setting audience limit c = pure ([], some (.ok c.report), c.session) := by
  unfold goOnNoting
  split
  · next hstatus => simp [Report.isSuspended, hstatus] at h
  · next hstatus => simp [Report.isSuspended, hstatus] at h
  · rfl

theorem goOn_suspended (audience : Audience m) (limit : Nat) {c : Conversation} {token : String}
    {prompt : Prompt} (h : c.report.status = .suspended token prompt) :
    goOn setting audience (limit + 1) c = (do
      match ← c.ask audience prompt with
      | .error failure => return (some (.error failure), c.session)
      | .ok answer =>
        let (result, next) := c.reply setting token answer
        audience.hear (next.session.events.drop c.session.events.length)
        match result with
        | .ok () => goOn setting audience limit next
        | .error failure => return (some (.error failure), next.session)) := by
  rw [goOn.eq_def]
  simp only [h]
  unfold ask
  split <;> rfl

theorem goOnNoting_suspended (audience : Audience m) (limit : Nat) {c : Conversation}
    {token : String} {prompt : Prompt} (h : c.report.status = .suspended token prompt) :
    goOnNoting setting audience (limit + 1) c = (do
      match ← c.ask audience prompt with
      | .error failure => return ([], some (.error failure), c.session)
      | .ok answer =>
        let note := c.exchange setting token prompt answer
        let (result, next) := c.reply setting token answer
        audience.hear (next.session.events.drop c.session.events.length)
        match result with
        | .ok () => do
          let (notes, told) ← goOnNoting setting audience limit next
          return (note :: notes, told)
        | .error failure => return ([note], some (.error failure), next.session)) := by
  rw [goOnNoting.eq_def]
  simp only [h]

variable [LawfulMonad m]

-- Without the notes it is the same conversation.
theorem snd_goOnNoting (audience : Audience m) (limit : Nat) (c : Conversation) :
    Prod.snd <$> goOnNoting setting audience limit c = goOn setting audience limit c := by
  induction limit generalizing c with
  | zero =>
    unfold goOnNoting goOn
    cases c.report.status <;> simp
  | succ limit ih =>
    cases hstatus : c.report.status with
    | suspended token prompt =>
      rw [goOnNoting_suspended audience limit hstatus, goOn_suspended audience limit hstatus,
        map_bind]
      refine bind_congr fun answer => ?_
      cases answer with
      | error failure => simp
      | ok answer =>
        dsimp only
        rw [map_bind]
        refine bind_congr fun _ => ?_
        cases (c.reply setting token answer).1 with
        | error failure => simp
        | ok _ => simp [← ih]
    | completed | halted =>
      have hfinished : c.report.isSuspended = false := by simp [Report.isSuspended, hstatus]
      rw [goOnNoting_finished audience _ hfinished, goOn_finished audience _ hfinished, map_pure]

theorem snd_converseNoting (origin : Option String) (audience : Audience m) (limit : Nat)
    (s : Session) :
    Prod.snd <$> s.converseNoting setting origin audience limit =
      s.converse setting origin audience limit := by
  rw [Session.converseNoting, Session.converse]
  generalize s.start setting origin = started
  obtain ⟨result, next⟩ := started
  rw [map_bind]
  refine bind_congr fun _ => ?_
  cases result with
  | error failure => exact map_pure Prod.snd _
  | ok report => exact snd_goOnNoting audience limit _

end Conversation

namespace Conversation

variable {m : Type → Type} [Monad m] {setting : Setting} {plan : Plan} {c : Conversation}
  {p : Pending} {op : Operation} {answer : Answer}

-- Whether all is over or an operation waits for an answer, and patience has not run out for longer.
def Sound (setting : Setting) (plan : Plan) (c : Conversation) : Prop :=
  Session.Stands setting plan (fun _ => True) c.report c.session ∧ c.rejections ≤ patience

-- What comes of an answer while an operation waits. One that is not accepted leaves it waiting.
inductive Replying (setting : Setting) (plan : Plan) (c : Conversation) (p : Pending)
    (op : Operation) (answer : Answer) : Except Failure Unit × Conversation → Prop where
  | rejected {next : Conversation} : answer ≠ .dismiss →
    (c.session.resume setting p.token answer).1.isOk = false → next.report = c.report →
    next.session.Awaits setting plan p op →
    next.session.remaining p.operation = c.session.remaining p.operation →
    next.rejections = c.rejections + 1 → Replying setting plan c p op answer (.ok (), next)
  | taken {next : Conversation} : (c.session.resume setting p.token answer).1.isOk = true →
    Session.Stands setting plan (fun p' => c.session.leadsBack setting answer = true ∨
      Cursor.Under plan.order.length p'.cursor p.cursor ∨
      p'.cursor = p.cursor ∧ p'.operation = p.operation ∧
        next.session.remaining p.operation < c.session.remaining p.operation)
      next.report next.session →
    next.rejections = 0 → Replying setting plan c p op answer (.ok (), next)

theorem replying (h : c.session.Awaits setting plan p op) (hid : op.id ≠ Records.targetKey)
    (answer : Answer) :
    c.Replying setting plan p op answer (c.reply setting p.token answer) := by
  have hanswering := Session.answering h hid answer
  rw [reply]
  generalize hcalled : c.session.resume setting p.token answer = called at hanswering
  cases hanswering with
  | rejected hanswer hawaits hremaining =>
    exact .rejected hanswer (by rw [hcalled]; rfl) rfl
      ⟨hawaits.toPlan_eq, hawaits.pending, hawaits.place, hawaits.asks⟩ hremaining rfl
  | taken hstands => exact .taken (by rw [hcalled]; rfl) hstands rfl

-- Notes of answers where so many in a row were not accepted before them. The audience is asked for
-- each of the first three answers to a prompt, and the prompt stays the same until one is accepted.
-- After that it is dismissed, which works.
inductive Patient : Nat → List Exchange → Prop where
  | finished {rejections : Nat} : Patient rejections []
  | accepted {rejections : Nat} {e : Exchange} {notes : List Exchange} : rejections < patience →
    e.asked = true → e.taken = true → Patient 0 notes → Patient rejections (e :: notes)
  | rejected {rejections : Nat} {e : Exchange} {notes : List Exchange} : rejections < patience →
    e.asked = true → e.taken = false →
    (∀ e' ∈ notes.head?, e'.token = e.token ∧ e'.prompt = e.prompt) →
    Patient (rejections + 1) notes → Patient rejections (e :: notes)
  | dismissed {e : Exchange} {notes : List Exchange} : e.asked = false → e.answer = .dismiss →
    e.taken = true → Patient 0 notes → Patient patience (e :: notes)

-- Whether the notes of a conversation are patient and begin with the prompt that is out.
def Fits (c : Conversation) (notes : List Exchange) : Prop :=
  Patient c.rejections notes ∧
    ∀ e ∈ notes.head?, c.report.status = .suspended e.token e.prompt

theorem fits_nil (c : Conversation) : c.Fits [] := ⟨.finished, by simp⟩

-- The answer comes from the audience, or the prompt is dismissed for want of patience.
theorem Replying.fits {next : Conversation} {notes : List Exchange}
    (h : c.Replying setting plan p op answer (.ok (), next))
    (hstatus : c.report.status = .suspended p.token p.prompt)
    (hanswer : c.rejections < patience ∨ c.rejections = patience ∧ answer = .dismiss)
    (hnotes : next.Fits notes) :
    c.Fits (c.exchange setting p.token p.prompt answer :: notes) := by
  refine ⟨?_, fun e he => ?_⟩
  · cases h with
    | rejected hne hrefused hreport _ _ hrejections =>
      have hasked : c.rejections < patience := hanswer.resolve_right fun h => hne h.2
      refine .rejected hasked (decide_eq_true hasked) hrefused (fun e he => ?_) ?_
      · have hsame := hnotes.2 e he
        rw [hreport, hstatus] at hsame
        obtain ⟨htoken, hprompt⟩ := RunStatus.suspended.inj hsame
        exact ⟨htoken.symm, hprompt.symm⟩
      · exact hrejections ▸ hnotes.1
    | taken htaken _ hrejections =>
      have hrest : Patient 0 notes := hrejections ▸ hnotes.1
      rcases hanswer with hasked | ⟨hpatience, rfl⟩
      · exact .accepted hasked (decide_eq_true hasked) htaken hrest
      · rw [hpatience]
        exact .dismissed (by simp [exchange, hpatience]) rfl htaken hrest
  · cases he
    exact hstatus

theorem Replying.sound {next : Conversation}
    (h : c.Replying setting plan p op answer (.ok (), next))
    (hstatus : c.report.status = .suspended p.token p.prompt)
    (hanswer : c.rejections < patience ∨ c.rejections = patience ∧ answer = .dismiss) :
    next.Sound setting plan := by
  cases h with
  | rejected hne _ hreport hawaits _ hrejections =>
    refine ⟨.inr ⟨p, op, hreport ▸ hstatus, hawaits, trivial⟩, ?_⟩
    rw [hrejections]
    exact hanswer.resolve_right fun h => hne h.2
  | taken _ hstands hrejections =>
    exact ⟨hstands.mono fun _ _ => trivial, hrejections ▸ Nat.zero_le _⟩

variable [LawfulMonad m]

theorem fits_goOnNoting (audience : Audience m)
    (hids : ∀ op ∈ plan.operations, op.id ≠ Records.targetKey) (limit : Nat) (c : Conversation)
    (hc : c.Sound setting plan) :
    SatisfiesM (fun noted => c.Fits noted.1) (goOnNoting setting audience limit c) := by
  induction limit generalizing c with
  | zero =>
    unfold goOnNoting
    split
    · exact .pure (fits_nil c)
    · contradiction
    · exact .pure (fits_nil c)
  | succ limit ih =>
    obtain ⟨hfinished | ⟨p, op, hstatus, hawaits, -⟩, hpatience⟩ := hc
    · rw [goOnNoting_finished audience _ hfinished]
      exact .pure (fits_nil c)
    have hanswered : ∀ answer,
        c.rejections < patience ∨ c.rejections = patience ∧ answer = .dismiss →
        SatisfiesM (fun noted => c.Fits noted.1) (do
          audience.hear
            ((c.reply setting p.token answer).2.session.events.drop c.session.events.length)
          match (c.reply setting p.token answer).1 with
          | .ok () => do
            let (notes, told) ← goOnNoting setting audience limit (c.reply setting p.token answer).2
            return (c.exchange setting p.token p.prompt answer :: notes, told)
          | .error failure =>
            return ([c.exchange setting p.token p.prompt answer], some (.error failure),
              (c.reply setting p.token answer).2.session)) := by
      intro answer hanswer
      have hreplying := replying hawaits (hids op hawaits.mem) answer
      generalize c.reply setting p.token answer = replied at hreplying ⊢
      obtain ⟨result, next⟩ := replied
      obtain rfl : result = .ok () := by cases hreplying <;> rfl
      refine .bind_pre (.of_true fun _ => ?_)
      exact (ih next (hreplying.sound hstatus hanswer)).bind fun noted hnoted =>
        .pure (hreplying.fits hstatus hanswer hnoted)
    rw [goOnNoting_suspended audience limit hstatus, ask]
    split
    · next hlimit =>
      rw [pure_bind]
      exact hanswered .dismiss (.inr ⟨Nat.le_antisymm hpatience hlimit, rfl⟩)
    · next hlimit =>
      refine .bind_pre (.of_true fun answer => ?_)
      split
      · exact .pure (fits_nil c)
      · exact hanswered _ (.inl (Nat.lt_of_not_le hlimit))

theorem fits_converseNoting (setting : Setting) (origin : Option String) (audience : Audience m)
    (limit : Nat) (s : Session) :
    SatisfiesM (fun noted => Patient 0 noted.1)
      (s.converseNoting setting origin audience limit) := by
  unfold Session.converseNoting
  refine .bind_pre (.of_true fun _ => ?_)
  split
  · exact .pure .finished
  · next report hstart =>
    obtain ⟨herrors, hstands⟩ := Session.stands_start (Prod.ext hstart rfl)
    exact (fits_goOnNoting audience (Activity.id_ne_target herrors) limit _
      ⟨hstands, Nat.zero_le _⟩).imp And.left

/-! Answers that are not accepted -/

variable {rejections : Nat} {block after : List Exchange}

-- As long as no answer is accepted the audience is asked, and it has only so many answers left.
theorem Patient.refused (h : Patient rejections (block ++ after)) (hfew : rejections ≤ patience)
    (hblock : ∀ e ∈ block, e.taken = false) :
    rejections + block.length ≤ patience ∧ (∀ e ∈ block, e.asked = true) ∧
      Patient (rejections + block.length) after := by
  induction block generalizing rejections with
  | nil => exact ⟨hfew, by simp, h⟩
  | cons e block ih =>
    rw [List.forall_mem_cons] at hblock
    cases h with
    | accepted _ _ htaken => simp [htaken] at hblock
    | dismissed _ _ htaken => simp [htaken] at hblock
    | rejected hlt hasked _ _ hrest =>
      obtain ⟨hle, hasks, hafter⟩ := ih hrest hlt hblock.2
      have hcount : rejections + (e :: block).length = rejections + 1 + block.length := by
        rw [List.length_cons]
        omega
      rw [hcount, List.forall_mem_cons]
      exact ⟨hle, ⟨hasked, hasks⟩, hafter⟩

theorem Patient.drop {before : List Exchange} (h : Patient rejections (before ++ after))
    (hfew : rejections ≤ patience) : ∃ rejections ≤ patience, Patient rejections after := by
  induction before generalizing rejections with
  | nil => exact ⟨rejections, hfew, h⟩
  | cons e before ih =>
    cases h with
    | accepted _ _ _ hrest => exact ih hrest (Nat.zero_le _)
    | rejected hlt _ _ _ hrest => exact ih hrest hlt
    | dismissed _ _ _ hrest => exact ih hrest (Nat.zero_le _)

-- Once three answers in a row were not accepted, nobody is asked and the prompt is dismissed.
theorem Patient.dismissal (h : Patient patience after) :
    ∀ e ∈ after.head?, e.asked = false ∧ e.answer = .dismiss ∧ e.taken = true := by
  intro e he
  cases h with
  | finished => cases he
  | accepted hlt => exact absurd hlt (Nat.lt_irrefl _)
  | rejected hlt => exact absurd hlt (Nat.lt_irrefl _)
  | dismissed hasked hanswer htaken =>
    cases he
    exact ⟨hasked, hanswer, htaken⟩

-- The next answer after one that was not accepted is to the same prompt.
theorem Patient.same {e e' : Exchange} (h : Patient rejections (e :: e' :: after))
    (htaken : e.taken = false) : e'.token = e.token ∧ e'.prompt = e.prompt := by
  cases h with
  | accepted _ _ htaken' => simp [htaken'] at htaken
  | dismissed _ _ htaken' => simp [htaken'] at htaken
  | rejected _ _ _ hsame _ => exact hsame e' rfl

end Conversation

end Tabletop
