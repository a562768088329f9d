import Tabletop.Proofs.Conversation.Noting
import Tabletop.Proofs.Conversation.Reports
import Tabletop.Proofs.Step.References

-- Conversations come to an end unless their answers lead back for ever. Where all that can be
-- chosen comes later, they end whatever is answered.
namespace Tabletop

/-! Where answers lead -/

-- Where an answer to an operation can lead: to the operations that it lists, or else to all others
-- that are deferred, or to those that its options name.
def Plan.destinations (plan : Plan) (op : Operation) : List String :=
  match op.kind with
  | .selectOperation [] _ =>
    (plan.choicesOf fun other => !other.immediate && other.id != op.id).map Choice.value
  | kind => Validation.offered kind

-- Whether answers only lead to operations that come later.
def Plan.Onward (plan : Plan) : Prop :=
  ∀ i op, plan.order[i]? = some op → ∀ id ∈ plan.destinations op,
    ∀ j, plan.position? id = some j → i < j

namespace Visit

variable {v : Visit} {outcome : Outcome} {id : String} {s s' : Stage} {answer : Answer}

theorem mem_destinations_of_candidates {operations : List String} {title : Option String}
    {c : Choice} (hkind : v.op.kind = .selectOperation operations title)
    (h : c ∈ v.candidates operations) : c.value ∈ v.plan.destinations v.op := by
  cases operations with
  | nil =>
    simp only [Plan.destinations, hkind]
    exact List.mem_map_of_mem h
  | cons first rest =>
    simp only [Plan.destinations, hkind, Validation.offered]
    obtain ⟨op, hop, rfl⟩ := List.mem_map.1 h
    obtain ⟨id, hid, hfound⟩ := List.mem_filterMap.1 hop
    have hvalue : (op.id == id) = true :=
      List.find?_some (p := fun op : Operation => op.id == id) hfound
    exact beq_iff_eq.1 hvalue ▸ hid

theorem mem_destinations (h : (v.accept answer).run s = (.ok (outcome, some id), s')) :
    id ∈ v.plan.destinations v.op := by
  unfold accept at h
  split at h
  · cases eq_none_of_run h
  · cases eq_none_of_run h
  · next operations title hkind =>
    have haccept := eq_of_run_lift h
    simp only [acceptOperation] at haccept
    split at haccept
    · cases haccept
    · split at haccept
      · split at haccept
        · next hchosen =>
          cases haccept
          obtain ⟨c, hc, hvalue⟩ := List.any_eq_true.1 hchosen
          rw [← beq_iff_eq.1 hvalue]
          exact mem_destinations_of_candidates hkind hc
        · cases haccept
      · cases haccept
  · next options title hkind =>
    simp only [Plan.destinations, hkind]
    exact mem_offered_of_acceptOption (eq_of_run_lift h)
  · cases eq_none_of_run h

end Visit

namespace Session

variable {setting : Setting} {plan : Plan} {s : Session} {p : Pending} {op : Operation}
  {answer : Answer}

-- Every place that an answer can lead to comes after that of the operation that waits.
theorem leadsBack_of_later (h : s.Awaits setting plan p op)
    (hlater : ∀ id outcome t t' j,
      ((Visit.mk setting plan op).accept answer).run t = (.ok (outcome, some id), t') →
      plan.position? id = some j → p.position < j) : s.leadsBack setting answer = false := by
  rw [h.leadsBack_eq, Visit.leadsBack]
  split
  · next position hreply =>
    obtain ⟨id, outcome, t, t', haccept, hposition⟩ := Visit.jump_of_reply hreply
    have hlt : p.position < position := hlater id outcome t t' position haccept hposition
    exact decide_eq_false (Nat.not_le.2 hlt)
  · rfl

theorem leadsBack_of_onward (honward : plan.Onward) (h : s.Awaits setting plan p op)
    (answer : Answer) : s.leadsBack setting answer = false :=
  leadsBack_of_later h fun id _ _ _ j haccept hposition =>
    honward p.position op (waiting?_eq_some_iff.1 h.place).1 id (Visit.mem_destinations haccept)
      j hposition

end Session

namespace Conversation

variable {σ : Type} {setting : Setting} {plan : Plan} {audience : Audience (StateM σ)}
  {c next : Conversation} {x y : σ} {answer : Answer}

-- Whether a conversation ends, and in one way however many replies it may have beyond those it
-- needs.
def Ends (setting : Setting) (audience : Audience (StateM σ)) (c : Conversation) (x : σ) : Prop :=
  ∃ limit result, result.1.1.isSome = true ∧
    ∀ more, (goOn setting audience (limit + more) c).run x = result

theorem ends_of_finished (h : c.report.isSuspended = false) (x : σ) : Ends setting audience c x :=
  ⟨0, ((some (.ok c.report), c.session), x), rfl, fun more => by
    rw [goOn_finished audience _ h]
    rfl⟩

-- Whether the answer that comes next is this one, and what becomes of the conversation and the
-- audience.
structure Leads (setting : Setting) (audience : Audience (StateM σ)) (c : Conversation) (x : σ)
    (token : String) (prompt : Prompt) (answer : Answer) (next : Conversation) (y : σ) : Prop where
  status : c.report.status = .suspended token prompt
  answers : ∃ z, (c.ask audience prompt).run x = (.ok answer, z) ∧
    y = ((audience.hear (next.session.events.drop c.session.events.length)).run z).2
  replies : c.reply setting token answer = (.ok (), next)

variable {token : String} {prompt : Prompt}

theorem Leads.goOn_eq (h : Leads setting audience c x token prompt answer next y) (limit : Nat) :
    (goOn setting audience (limit + 1) c).run x = (goOn setting audience limit next).run y := by
  obtain ⟨hstatus, ⟨z, hask, rfl⟩, hreply⟩ := h
  rw [goOn_suspended audience limit hstatus, StateT.run_bind, hask]
  dsimp only [Id, bind]
  simp only [hreply]
  rfl

theorem Leads.notes_eq (h : Leads setting audience c x token prompt answer next y) (limit : Nat) :
    ((goOnNoting setting audience (limit + 1) c).run x).1.1 =
      c.exchange setting token prompt answer ::
        ((goOnNoting setting audience limit next).run y).1.1 := by
  obtain ⟨hstatus, ⟨z, hask, rfl⟩, hreply⟩ := h
  rw [goOnNoting_suspended audience limit hstatus, StateT.run_bind, hask]
  dsimp only [Id, bind]
  simp only [hreply]
  rfl

theorem Leads.ends (h : Leads setting audience c x token prompt answer next y)
    (hnext : Ends setting audience next y) : Ends setting audience c x := by
  obtain ⟨limit, result, hsome, hsame⟩ := hnext
  refine ⟨limit + 1, result, hsome, fun more => ?_⟩
  rw [Nat.add_right_comm, h.goOn_eq]
  exact hsame more

theorem ends_of_failure {failure : Failure} {z : σ}
    (hstatus : c.report.status = .suspended token prompt)
    (hask : (c.ask audience prompt).run x = (.error failure, z)) : Ends setting audience c x :=
  ⟨1, ((some (.error failure), c.session), z), rfl, fun more => by
    rw [Nat.add_comm, goOn_suspended audience more hstatus, StateT.run_bind, hask]
    rfl⟩

theorem dismiss_of_ask {z : σ} (hlimit : patience ≤ c.rejections)
    (hask : (c.ask audience prompt).run x = (.ok answer, z)) : answer = .dismiss := by
  rw [ask, if_pos hlimit] at hask
  cases hask
  rfl

/-! What is still to come -/

-- What goes down as a conversation goes on: where its walk waits, then the items that the operation
-- has still to use there, then the answers that may be refused.
def weight (c : Conversation) (p : Pending) : Cursor × Nat × Nat :=
  (p.cursor, c.session.remaining p.operation, patience - c.rejections)

def Lower (size : Nat) : Cursor × Nat × Nat → Cursor × Nat × Nat → Prop :=
  Prod.Lex (Cursor.Under size) (Prod.Lex (· < ·) (· < ·))

theorem lower_wf (size : Nat) : WellFounded (Lower size) :=
  (Cursor.under_wf size).prod_lex (wellFounded_lt.prod_lex wellFounded_lt)

theorem Replying.lower {p : Pending} {op : Operation}
    (h : c.Replying setting plan p op answer (.ok (), next))
    (hstatus : c.report.status = .suspended p.token p.prompt)
    (hanswer : c.rejections < patience ∨ c.rejections = patience ∧ answer = .dismiss)
    (honward : c.session.leadsBack setting answer = false) :
    Session.Stands setting plan
      (fun p' => Lower plan.order.length (next.weight p') (c.weight p))
      next.report next.session := by
  cases h with
  | rejected hne _ hreport hawaits hremaining hrejections =>
    have hasked : c.rejections < patience := hanswer.resolve_right fun h => hne h.2
    have hfewer : patience - next.rejections < patience - c.rejections := by omega
    refine .inr ⟨p, op, hreport ▸ hstatus, hawaits, ?_⟩
    simp only [weight, hremaining]
    exact .right _ (.right _ hfewer)
  | taken _ hstands _ =>
    refine hstands.mono fun p' hwhere => ?_
    rcases hwhere with hback | hunder | ⟨hcursor, hoperation, hshorter⟩
    · rw [honward] at hback
      cases hback
    · exact .left _ _ hunder
    · simp only [weight, hcursor, hoperation]
      exact .right _ (.left _ _ hshorter)

-- What holds along a conversation up to the first answer that leads back, and has it end from there
-- on, has it end.
theorem ends_of_descent (hids : ∀ op ∈ plan.operations, op.id ≠ Records.targetKey)
    {B : Conversation → σ → Prop}
    (hB : ∀ {c next : Conversation} {x y : σ} {p : Pending} {op : Operation} {answer : Answer},
      B c x → c.session.Awaits setting plan p op →
      Leads setting audience c x p.token p.prompt answer next y → next.Sound setting plan →
      if c.session.leadsBack setting answer then Ends setting audience next y else B next y)
    (hsound : c.Sound setting plan) (hc : B c x) : Ends setting audience c x := by
  obtain ⟨hfinished | ⟨p, op, hstatus, hawaits, -⟩, hpatience⟩ := hsound
  · exact ends_of_finished hfinished x
  -- By induction on the weight, which every answer lowers that does not lead back.
  induction hw : c.weight p using (lower_wf plan.order.length).induction generalizing c x p op with
  | _ w ih =>
    subst hw
    rcases hask : (c.ask audience p.prompt).run x with ⟨_ | answer, z⟩
    · exact ends_of_failure hstatus hask
    have hanswer : c.rejections < patience ∨ c.rejections = patience ∧ answer = .dismiss :=
      hpatience.lt_or_eq.imp_right fun h => ⟨h, dismiss_of_ask h.ge hask⟩
    have hreplying := replying hawaits (hids op hawaits.mem) answer
    rcases hreply : c.reply setting p.token answer with ⟨result, next⟩
    rw [hreply] at hreplying
    obtain rfl : result = .ok () := by cases hreplying <;> rfl
    have hleads : Leads setting audience c x p.token p.prompt answer next _ :=
      ⟨hstatus, ⟨z, hask, rfl⟩, hreply⟩
    have hsound := hreplying.sound hstatus hanswer
    refine hleads.ends ?_
    have hnext := hB hc hawaits hleads hsound
    split at hnext
    · exact hnext
    · next honward =>
      rcases hreplying.lower hstatus hanswer (Bool.not_eq_true _ ▸ honward) with
        hfinished | ⟨p', op', hstatus', hawaits', hlower⟩
      · exact ends_of_finished hfinished _
      · exact ih _ hlower hnext hsound.2 p' op' hstatus' hawaits' rfl

/-! Answers that lead back -/

-- How often the answers of a conversation led back within so many replies.
def returns (setting : Setting) (audience : Audience (StateM σ)) (c : Conversation) (x : σ)
    (limit : Nat) : Nat :=
  ((goOnNoting setting audience limit c).run x).1.1.countP Exchange.back

theorem Leads.returns_eq (h : Leads setting audience c x token prompt answer next y) (limit : Nat) :
    returns setting audience c x (limit + 1) = returns setting audience next y limit +
      if c.session.leadsBack setting answer then 1 else 0 := by
  rw [returns, h.notes_eq, List.countP_cons]
  rfl

-- A conversation whose answers lead back only so often ends.
theorem ends_of_returns_lt (hids : ∀ op ∈ plan.operations, op.id ≠ Records.targetKey) {n : Nat}
    (hsound : c.Sound setting plan) (hn : ∀ limit, returns setting audience c x limit < n) :
    Ends setting audience c x := by
  induction n generalizing c x with
  | zero => exact absurd (hn 0) (Nat.not_lt_zero _)
  | succ n ih =>
    refine ends_of_descent (B := fun c x => ∀ limit, returns setting audience c x limit < n + 1)
      hids (fun {c next _ y _ _ answer} hlt _ hleads hnext => ?_) hsound hn
    have hreturns := fun limit => hleads.returns_eq limit ▸ hlt (limit + 1)
    split
    · next hback =>
      refine ih hnext fun limit => ?_
      have hmore := hreturns limit
      rw [if_pos hback] at hmore
      exact Nat.lt_of_succ_lt_succ hmore
    · exact fun limit => Nat.lt_of_le_of_lt (Nat.le_add_right _ _) (hreturns limit)

-- There are no more notes of a conversation than replies that it needed.
theorem length_notes_le {limit : Nat}
    (h : ((goOn setting audience limit c).run x).1.1.isSome = true) (more : Nat) :
    ((goOnNoting setting audience more c).run x).1.1.length ≤ limit := by
  induction more generalizing c x limit with
  | zero =>
    unfold goOnNoting
    split
    · exact Nat.zero_le _
    · contradiction
    · exact Nat.zero_le _
  | succ more ih =>
    cases hstatus : c.report.status with
    | completed | halted =>
      rw [goOnNoting_finished audience _ (by simp [Report.isSuspended, hstatus])]
      exact Nat.zero_le _
    | suspended token prompt =>
      cases limit with
      | zero =>
        rw [goOn.eq_def] at h
        simp only [hstatus] at h
        cases h
      | succ limit =>
        rcases hask : (c.ask audience prompt).run x with ⟨failure | answer, z⟩
        · rw [goOnNoting_suspended audience more hstatus, StateT.run_bind, hask]
          exact Nat.zero_le _
        rcases hreply : c.reply setting token answer with ⟨failure | _, next⟩
        · rw [goOnNoting_suspended audience more hstatus, StateT.run_bind, hask]
          dsimp only [Id, bind]
          simp only [hreply]
          exact Nat.succ_le_succ (Nat.zero_le _)
        · have hleads : Leads setting audience c x token prompt answer next _ :=
            ⟨hstatus, ⟨z, hask, rfl⟩, hreply⟩
          rw [hleads.goOn_eq] at h
          rw [hleads.notes_eq, List.length_cons]
          exact Nat.succ_le_succ (ih h)

end Conversation

namespace Session

variable {σ : Type} {setting : Setting} {origin : Option String} {audience : Audience (StateM σ)}
  {s : Session} {x : σ}

-- Whether a conversation ends with a report or a failure after finitely many replies.
def Concludes (setting : Setting) (origin : Option String) (audience : Audience (StateM σ))
    (s : Session) (x : σ) : Prop :=
  ∃ limit result, result.1.1.isSome = true ∧
    ∀ more, (s.converse setting origin audience (limit + more)).run x = result

-- How often the answers of a conversation lead back within so many replies.
def returns (setting : Setting) (origin : Option String) (audience : Audience (StateM σ))
    (s : Session) (x : σ) (limit : Nat) : Nat :=
  ((s.converseNoting setting origin audience limit).run x).1.1.countP Exchange.back

-- A conversation is over at once, or goes on from where its start leaves it.
theorem converse_cases (setting : Setting) (origin : Option String)
    (audience : Audience (StateM σ)) (s : Session) (x : σ) :
    s.Concludes setting origin audience x ∧
        (∀ limit, s.returns setting origin audience x limit = 0) ∨
      ∃ c y, s.activity.errors = [] ∧ Conversation.Sound setting s.activity.toPlan c ∧
        (∀ limit, (s.converse setting origin audience limit).run x =
          (Conversation.goOn setting audience limit c).run y) ∧
        ∀ limit, s.returns setting origin audience x limit =
          Conversation.returns setting audience c y limit := by
  rcases hstart : s.start setting origin with ⟨failure | report, next⟩
  · refine .inl ⟨⟨0, ((some (.error failure), next),
      ((audience.hear (next.events.drop s.events.length)).run x).2), rfl, fun more => ?_⟩,
      fun limit => ?_⟩
    · simp only [converse, hstart]
      rfl
    · simp only [returns, converseNoting, hstart]
      rfl
  · obtain ⟨herrors, hstands⟩ := stands_start hstart
    refine .inr ⟨⟨next, report, 0⟩, ((audience.hear (next.events.drop s.events.length)).run x).2,
      herrors, ⟨hstands, Nat.zero_le _⟩, fun limit => ?_, fun limit => ?_⟩
    · simp only [converse, hstart]
      rfl
    · simp only [returns, converseNoting, hstart]
      rfl

-- Nothing but answers that lead back for ever keeps a conversation from its end.
theorem concludes_iff_returns (setting : Setting) (origin : Option String)
    (audience : Audience (StateM σ)) (s : Session) (x : σ) :
    s.Concludes setting origin audience x ↔
      ∃ n, ∀ limit, s.returns setting origin audience x limit ≤ n := by
  rcases converse_cases setting origin audience s x with
    ⟨hconcludes, hnone⟩ | ⟨c, y, herrors, hsound, hruns, hreturns⟩
  · exact iff_of_true hconcludes ⟨0, fun limit => (hnone limit).le⟩
  constructor
  · rintro ⟨limit, result, hsome, hsame⟩
    have hover : ((Conversation.goOn setting audience limit c).run y).1.1.isSome = true := by
      rwa [← hruns limit, ← Nat.add_zero limit, hsame 0]
    refine ⟨limit, fun more => ?_⟩
    calc s.returns setting origin audience x more
      _ = Conversation.returns setting audience c y more := hreturns more
      _ ≤ _ := List.countP_le_length
      _ ≤ limit := Conversation.length_notes_le hover more
  · rintro ⟨n, hn⟩
    obtain ⟨limit, result, hsome, hsame⟩ :=
      Conversation.ends_of_returns_lt (Activity.id_ne_target herrors) hsound
        fun limit => Nat.lt_succ_of_le (hreturns limit ▸ hn limit)
    exact ⟨limit, result, hsome, fun more => (hruns _).trans (hsame more)⟩

-- A conversation ends in which no answer leads back.
theorem concludes_of_leads
    (hforward : ∀ {c next : Conversation} {y z : σ} {p : Pending} {op : Operation}
      {answer : Answer}, s.activity.errors = [] → c.session.Awaits setting s.activity.toPlan p op →
      Conversation.Leads setting audience c y p.token p.prompt answer next z →
      c.session.leadsBack setting answer = false)
    (origin : Option String) (x : σ) : s.Concludes setting origin audience x := by
  rcases converse_cases setting origin audience s x with
    ⟨hconcludes, -⟩ | ⟨c, y, herrors, hsound, hruns, -⟩
  · exact hconcludes
  have hends : Conversation.Ends setting audience c y := by
    refine Conversation.ends_of_descent (B := fun _ _ => True) (Activity.id_ne_target herrors)
      (fun _ hawaits hleads _ => ?_) hsound trivial
    rw [hforward herrors hawaits hleads]
    trivial
  obtain ⟨limit, result, hsome, hsame⟩ := hends
  exact ⟨limit, result, hsome, fun more => (hruns _).trans (hsame more)⟩

theorem exists_converseNoting (setting : Setting) (origin : Option String)
    (audience : Audience (StateM σ)) (limit : Nat) (s : Session) (x : σ) :
    ∃ notes told y, (s.converseNoting setting origin audience limit).run x = ((notes, told), y) ∧
      (s.converse setting origin audience limit).run x = (told, y) ∧
      Conversation.Patient 0 notes := by
  rcases hnoting : (s.converseNoting setting origin audience limit).run x with ⟨⟨notes, told⟩, y⟩
  refine ⟨notes, told, y, rfl, ?_, ?_⟩
  · rw [← Conversation.snd_converseNoting, StateT.run_map, hnoting]
    rfl
  · have hpatient := SatisfiesM_Id_eq.1 (SatisfiesM_StateT_eq.1
      (Conversation.fits_converseNoting setting origin audience limit s) x)
    rwa [hnoting] at hpatient

-- A conversation whose choices all come later ends, whatever the audience answers. The audience is
-- asked at most three times for an answer to one prompt that is not accepted, and then the prompt
-- is dismissed.
theorem converse_onward (honward : s.activity.toPlan.Onward) (setting : Setting)
    (origin : Option String) (audience : Audience (StateM σ)) (x : σ) :
    s.Concludes setting origin audience x ∧ ∀ limit, ∃ notes told y,
      (s.converseNoting setting origin audience limit).run x = ((notes, told), y) ∧
      (s.converse setting origin audience limit).run x = (told, y) ∧
      (∀ before e e' after, notes = before ++ e :: e' :: after → e.taken = false →
        e'.token = e.token ∧ e'.prompt = e.prompt) ∧
      ∀ before block after, notes = before ++ (block ++ after) →
        (∀ e ∈ block, e.taken = false) →
        block.length ≤ 3 ∧ (∀ e ∈ block, e.asked = true) ∧
          (block.length = 3 →
            ∀ e ∈ after.head?, e.asked = false ∧ e.answer = .dismiss ∧ e.taken = true) := by
  refine ⟨concludes_of_leads (fun _ hawaits _ => leadsBack_of_onward honward hawaits _) origin x,
    fun limit => ?_⟩
  obtain ⟨notes, told, y, hnoting, hrun, hpatient⟩ :=
    exists_converseNoting setting origin audience limit s x
  refine ⟨notes, told, y, hnoting, hrun, ?_, ?_⟩
  · rintro before e e' after rfl htaken
    obtain ⟨_, -, hrest⟩ := hpatient.drop (Nat.zero_le _)
    exact hrest.same htaken
  · rintro before block after rfl hblock
    obtain ⟨rejections, hfew, hrest⟩ := hpatient.drop (Nat.zero_le _)
    obtain ⟨hlength, hasked, hafter⟩ := hrest.refused hfew hblock
    refine ⟨Nat.le_trans (Nat.le_add_left _ _) hlength, hasked, fun hthree => ?_⟩
    obtain rfl : rejections = 0 := by
      rw [hthree] at hlength
      exact Nat.le_zero.1 (Nat.le_of_add_le_add_right (c := 0) hlength)
    rw [hthree] at hafter
    exact hafter.dismissal

theorem order_goblins :
    Conversation.goblins.activity.toPlan.order = Conversation.goblins.activity.operations :=
  List.mergeSort_of_pairwise (by decide)

theorem onward_goblins : Conversation.goblins.activity.toPlan.Onward := by
  intro i op hop id hid j hposition
  rw [order_goblins] at hop
  rw [Plan.position?, order_goblins] at hposition
  rcases i with _ | _ | _ | i
  · cases hop
    cases hid
  · cases hop
    obtain rfl : id = "end" := List.mem_singleton.1 hid
    cases hposition
    decide
  · cases hop
    cases hid
  · cases hop

theorem converse_onward_goblins :
    Conversation.goblins.activity.toPlan.Onward ∧
      Conversation.goblins.Concludes Conversation.parley none Conversation.prompter
        Conversation.replies :=
  ⟨onward_goblins, (converse_onward onward_goblins _ none _ _).1⟩

end Session

end Tabletop
