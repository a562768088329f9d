import Tabletop.Proofs.Step.Fields

-- The questions that operations ask, by their kind. Most operations ask none.
namespace Tabletop

-- Whether an operation may ask for this when it is carried out or answered.
def Visit.Poses (v : Visit) (kind : PromptKind) : Prop :=
  match v.op.kind with
  | .use _ => kind = .acknowledge
  | .variable _ default min max => kind = .number default min max
  | .selectOperation operations _ =>
    v.candidates operations ≠ [] ∧ kind = .select (v.candidates operations)
  | .selectOption options _ =>
    options ≠ [] ∧ kind = .select (options.mapIdx fun i o => ⟨toString i, o.label⟩)
  | _ => False

-- Whether an operation of this kind sends the walk into branches.
def OperationKind.Forks : OperationKind → Prop
  | .test _ | .target _ => True
  | _ => False

-- Whether an operation may come out like this when it is carried out or answered.
def Visit.MayEnd (v : Visit) : Result → Prop
  | .success | .halted _ => True
  | .forked _ => v.op.kind.Forks
  | .suspended prompt => v.Poses prompt.kind

namespace Outcome

def Succeeds (o : Outcome) : Prop := o.result = .success

def Forks (o : Outcome) : Prop := ∃ targets, o.result = .forked targets

def Halts (o : Outcome) : Prop := ∃ reason, o.result = .halted reason

def Asks (P : PromptKind → Prop) (o : Outcome) : Prop :=
  ∃ prompt, o.result = .suspended prompt ∧ P prompt.kind

variable {o : Outcome} {v : Visit}

theorem Succeeds.mayEnd (h : o.Succeeds) : v.MayEnd o.result := by
  rw [h]
  trivial

theorem Forks.mayEnd (hkind : v.op.kind.Forks) (h : o.Forks) : v.MayEnd o.result := by
  obtain ⟨targets, htargets⟩ := h
  rw [htargets]
  exact hkind

theorem Halts.mayEnd (h : o.Halts) : v.MayEnd o.result := by
  obtain ⟨reason, hreason⟩ := h
  rw [hreason]
  trivial

theorem Asks.mayEnd (h : o.Asks v.Poses) : v.MayEnd o.result := by
  obtain ⟨prompt, hprompt, hposed⟩ := h
  rw [hprompt]
  exact hposed

end Outcome

namespace Visit

open Act

variable {v : Visit}

theorem use_of_poses (h : v.Poses .acknowledge) : ∃ source, v.op.kind = .use source := by
  unfold Poses at h
  split at h
  · next source hkind => exact ⟨source, hkind⟩
  · cases h
  · cases h.2
  · cases h.2
  · exact h.elim

theorem variable_of_poses {default min max : Option Binary64}
    (h : v.Poses (.number default min max)) :
    ∃ label, v.op.kind = .variable label default min max := by
  unfold Poses at h
  split at h
  · cases h
  · next label _ _ _ hkind =>
    cases h
    exact ⟨label, hkind⟩
  · cases h.2
  · cases h.2
  · exact h.elim

theorem succeeds_attack (damages : List Damage) (apply : Bool) :
    Yields Outcome.Succeeds (v.attack damages apply) := by
  unfold attack
  refine .bind fun _ => ?_
  extract_lets recipients rest
  have hrest : ∀ u, Yields Outcome.Succeeds (rest u) := fun _ =>
    .bind fun _ => .bind fun _ => .bind fun _ => .bind fun _ => .pure rfl
  split
  · exact .bind hrest
  · exact hrest ()

theorem succeeds_check (name : String) (override : Option RollOverride)
    (difficulty : Option String) : Yields Outcome.Succeeds (v.check name override difficulty) := by
  refine .bind fun _ => .bind fun _ => .bind fun _ => ?_
  cases difficulty with
  | some formula =>
    exact .bind fun _ => .bind fun _ => .bind fun _ => .pure rfl
  | none => exact .bind fun _ => .bind fun _ => .pure rfl

theorem forks_test (specs : TestSpecs) : Yields Outcome.Forks (v.test specs) := by
  unfold test
  refine .bind fun _ => ?_
  extract_lets rest
  have hrest : ∀ u, Yields Outcome.Forks (rest u) := fun _ =>
    .bind fun _ => .bind fun _ => .bind fun _ => .bind fun _ => .pure ⟨_, rfl⟩
  split
  · exact .bind hrest
  · exact hrest ()

theorem ends_condition (conditions : List Predicate) (proceedAnyway : Bool) :
    Yields (fun o => o.Succeeds ∨ o.Halts) (v.condition conditions proceedAnyway) := by
  unfold condition
  refine .bind fun _ => .bind fun _ => .bind fun _ => ?_
  extract_lets fields
  split
  · exact .pure (.inl rfl)
  · split
    · exact .pure (.inl rfl)
    · exact .pure (.inr ⟨_, rfl⟩)

theorem forks_target (appliesTo : AppliesTo) : Yields Outcome.Forks (v.target appliesTo) := by
  unfold target
  refine .bind fun _ => ?_
  extract_lets forked rest
  have hforked : ∀ chosen, Yields Outcome.Forks (forked chosen) := fun _ => .pure ⟨_, rfl⟩
  have hrest : ∀ u, Yields Outcome.Forks (rest u) := by
    intro u
    cases appliesTo with
    | each => exact .bind fun chosen => hforked chosen
    | random => exact .bind fun _ => .bind fun chosen => hforked chosen
  split
  · exact .bind hrest
  · exact hrest ()

-- An item that is not done yet is waited for.
theorem asks_useQueue (used queue : List String) :
    Yields (fun o => o.Succeeds ∨ o.Asks (· = .acknowledge)) (v.useQueue used queue) := by
  induction queue generalizing used with
  | nil => exact .pure (.inl rfl)
  | cons reference rest ih =>
    unfold useQueue
    refine .bind fun _ => ?_
    split
    · exact .throw _
    · refine .bind fun use => ?_
      cases use with
      | used _ => exact ih _
      | pending =>
        exact .pure (.inr ⟨_, rfl, rfl⟩)

theorem asks_use (source : UseSource) :
    Yields (fun o => o.Succeeds ∨ o.Asks (· = .acknowledge)) (v.use source) := by
  unfold use
  refine .bind fun _ => ?_
  split
  · exact asks_useQueue _ _
  · exact .throw _

theorem asks_useRest (answer : Answer) :
    Yields (fun o => o.Succeeds ∨ o.Asks (· = .acknowledge)) (v.useRest answer) := by
  unfold useRest
  split
  · exact .bind fun _ => asks_useQueue _ _
  · exact .throw _

theorem succeeds_createResource (name maximum : String) (negativeAllowed : Bool)
    (reset : ResetTrigger) : Yields Outcome.Succeeds (v.createResource name maximum negativeAllowed reset) := by
  unfold createResource
  refine .bind fun _ => ?_
  split
  · exact .pure rfl
  · exact .bind fun _ => .bind fun _ => .bind fun _ => .bind fun _ => .bind fun _ =>
      .pure rfl

theorem succeeds_consumeResource (resource amount : String) :
    Yields Outcome.Succeeds (v.consumeResource resource amount) := by
  unfold consumeResource
  refine .bind fun _ => ?_
  split
  · exact .throw _
  · refine .bind fun _ => .bind fun _ => .bind fun _ => .bind fun _ => ?_
    split
    · exact .throw _
    · exact .bind fun _ => .bind fun _ => .pure rfl

theorem succeeds_heal (formula : String) (resource : Option String) (recipient : Recipient)
    (components : List Component) :
    Yields Outcome.Succeeds (v.heal formula resource recipient components) :=
  .bind fun _ => .bind fun _ => .bind fun _ => .bind fun _ => .bind fun _ =>
    .bind fun _ => .bind fun _ => .pure rfl

theorem succeeds_consumption (restores : List Restore) (components : List Component)
    (recipient : Recipient) :
    Yields Outcome.Succeeds (v.consumption restores components recipient) :=
  .bind fun _ => .bind fun _ => .bind fun _ => .bind fun _ => .bind fun _ =>
    .bind fun _ => .bind fun _ => .pure rfl

theorem succeeds_setFlag (key value : String) : Yields Outcome.Succeeds (v.setFlag key value) :=
  .bind fun _ => .bind fun _ => .bind fun _ => .pure rfl

theorem succeeds_travel (modifier : String) : Yields Outcome.Succeeds (v.travel modifier) := by
  unfold travel
  refine .bind fun _ => ?_
  extract_lets path rest
  have hrest : ∀ speed, Yields Outcome.Succeeds (rest speed) := fun _ =>
    .bind fun _ => .bind fun _ => .bind fun _ => .pure rfl
  split
  · exact .bind hrest
  · exact .bind fun _ => .bind hrest

theorem succeeds_message (text : String) : Yields Outcome.Succeeds (v.message text) :=
  .bind fun _ => .bind fun _ => .pure rfl

theorem asks_askOperation {operations : List String} {title : Option String} {o : Outcome}
    (h : v.askOperation operations title = .ok o) : o.Asks fun kind =>
      v.candidates operations ≠ [] ∧ kind = .select (v.candidates operations) := by
  simp only [askOperation] at h
  split at h
  · cases h
  · next hchoices =>
    cases h
    exact ⟨_, rfl, fun hnone => hchoices (List.isEmpty_iff.2 hnone), rfl⟩

theorem asks_askOption {options : List OptionEntry} {title : Option String} {o : Outcome}
    (h : v.askOption options title = .ok o) : o.Asks fun kind =>
      options ≠ [] ∧ kind = .select (options.mapIdx fun i o => ⟨toString i, o.label⟩) := by
  simp only [askOption] at h
  split at h
  · cases h
  · next hoptions =>
    cases h
    exact ⟨_, rfl, fun hnone => hoptions (List.isEmpty_iff.2 hnone), rfl⟩

theorem mayEnd_of_used (hposes : v.Poses = (· = .acknowledge)) {o : Outcome}
    (h : o.Succeeds ∨ o.Asks (· = .acknowledge)) : v.MayEnd o.result :=
  h.elim Outcome.Succeeds.mayEnd fun hasks => Outcome.Asks.mayEnd (hposes ▸ hasks)

theorem mayEnd_begin : Yields (fun o => v.MayEnd o.result) v.begin := by
  have hsucceeds : ∀ {a : Act Outcome}, Yields Outcome.Succeeds a →
      Yields (fun o => v.MayEnd o.result) a := fun ha => ha.imp fun _ => Outcome.Succeeds.mayEnd
  have hasks : ∀ {P : PromptKind → Prop} {a : Act Outcome}, v.Poses = P →
      Yields (Outcome.Asks P) a → Yields (fun o => v.MayEnd o.result) a := by
    rintro _ a rfl ha
    exact ha.imp fun _ => Outcome.Asks.mayEnd
  have hforks : ∀ {a : Act Outcome}, v.op.kind.Forks → Yields Outcome.Forks a →
      Yields (fun o => v.MayEnd o.result) a :=
    fun hkind ha => ha.imp fun _ => Outcome.Forks.mayEnd hkind
  cases hkind : v.op.kind <;> simp only [begin, hkind]
  case attack => exact hsucceeds (succeeds_attack _ _)
  case check => exact hsucceeds (succeeds_check _ _ _)
  case test => exact hforks (by rw [hkind]; trivial) (forks_test _)
  case condition =>
    exact (ends_condition _ _).imp fun _ ho => ho.elim Outcome.Succeeds.mayEnd Outcome.Halts.mayEnd
  case target => exact hforks (by rw [hkind]; trivial) (forks_target _)
  case use =>
    have hposes : v.Poses = (· = .acknowledge) := by
      funext kind
      simp only [Poses, hkind]
    exact (asks_use _).imp fun _ => mayEnd_of_used hposes
  case createResource => exact hsucceeds (succeeds_createResource _ _ _ _)
  case consumeResource => exact hsucceeds (succeeds_consumeResource _ _)
  case heal => exact hsucceeds (succeeds_heal _ _ _ _)
  case consumption => exact hsucceeds (succeeds_consumption _ _ _)
  case setFlag => exact hsucceeds (succeeds_setFlag _ _)
  case «variable» =>
    refine hasks (P := v.Poses) rfl (.pure ⟨_, rfl, ?_⟩)
    simp only [Poses, hkind]
  case travel => exact hsucceeds (succeeds_travel _)
  case selectOperation =>
    refine hasks ?_ (yields_lift fun o => asks_askOperation)
    funext kind
    simp only [Poses, hkind]
  case selectOption =>
    refine hasks ?_ (yields_lift fun o => asks_askOption)
    funext kind
    simp only [Poses, hkind]
  case message => exact hsucceeds (succeeds_message _)

theorem succeeds_acceptVariable {label : String} {default min max : Option Binary64} {answer : Answer}
    {o : Outcome} (h : v.acceptVariable label default min max answer = .ok o) : o.Succeeds := by
  unfold acceptVariable at h
  extract_lets bounded at h
  have hbounded : ∀ n, bounded n = .ok o → o.Succeeds := by
    intro n hn
    simp only [bounded] at hn
    split at hn
    · cases hn
    · split at hn
      · cases hn
      · split at hn
        · cases hn
        · cases hn
          exact rfl
  split at h
  · exact hbounded _ h
  · split at h
    · exact hbounded _ h
    · cases h
  · split at h
    · exact hbounded _ h
    · cases h
  · cases h

theorem succeeds_acceptOperation {operations : List String} {answer : Answer}
    {taken : Outcome × Option String} (h : v.acceptOperation operations answer = .ok taken) :
    taken.1.Succeeds := by
  simp only [acceptOperation] at h
  split at h
  · cases h
  · split at h
    · split at h
      · cases h
        exact rfl
      · cases h
    · cases h

theorem succeeds_acceptOption {options : List OptionEntry} {answer : Answer}
    {taken : Outcome × Option String} (h : v.acceptOption options answer = .ok taken) :
    taken.1.Succeeds := by
  simp only [acceptOption] at h
  split at h
  · cases h
  · split at h
    · split at h
      · cases h
        exact rfl
      · cases h
    · cases h

theorem mayEnd_accept (answer : Answer) :
    Yields (fun taken => v.MayEnd taken.1.result) (v.accept answer) := by
  unfold accept
  split
  · next source hkind =>
    have hposes : v.Poses = (· = .acknowledge) := by
      funext kind
      simp only [Poses, hkind]
    exact (asks_useRest answer).map fun _ => mayEnd_of_used hposes
  · exact (yields_lift fun o => succeeds_acceptVariable).map fun _ => Outcome.Succeeds.mayEnd
  · exact yields_lift fun taken htaken => (succeeds_acceptOperation htaken).mayEnd
  · exact yields_lift fun taken htaken => (succeeds_acceptOption htaken).mayEnd
  · exact mayEnd_begin.map fun _ ho => ho

-- An operation that asks for something other than word of an item asks nothing more once it has
-- accepted an answer.
theorem succeeds_accept {kind : PromptKind} (hposes : v.Poses kind) (hkind : kind ≠ .acknowledge)
    (answer : Answer) : Yields (fun taken => taken.1.Succeeds) (v.accept answer) := by
  unfold Poses at hposes
  split at hposes
  · exact absurd hposes hkind
  · next hop =>
    simp only [accept, hop]
    exact (yields_lift fun o => succeeds_acceptVariable).map fun o ho => ho
  · next hop =>
    simp only [accept, hop]
    exact yields_lift fun taken => succeeds_acceptOperation
  · next hop =>
    simp only [accept, hop]
    exact yields_lift fun taken => succeeds_acceptOption
  · exact hposes.elim

theorem Leaves.mayEnd {o : Outcome} (h : v.Leaves o) : v.MayEnd o.result := by
  obtain ⟨s, s', hrun⟩ | ⟨answer, destination, s, s', hrun⟩ := h
  · exact mayEnd_begin s o s' hrun
  · exact mayEnd_accept answer s (o, destination) s' hrun

-- Whether the operation may leave this question, be it carried out or answered, at whatever stage.
def Asks (v : Visit) (prompt : Prompt) : Prop :=
  ∃ outcome, v.Leaves outcome ∧ outcome.result = .suspended prompt

-- Whatever an operation asks is what its kind asks.
theorem Asks.poses {prompt : Prompt} (h : v.Asks prompt) : v.Poses prompt.kind := by
  obtain ⟨o, hleaves, hprompt⟩ := h
  have hmay := hleaves.mayEnd
  rwa [hprompt] at hmay

end Visit

end Tabletop
