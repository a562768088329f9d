import Tabletop.Proofs.Binary64.Order
import Tabletop.Proofs.Step.Prompts
import Tabletop.Reply

-- Whether operations accept the automatic answers to what they ask. They do, unless a number is
-- asked for and the one that is suggested is not above the least that is allowed.
namespace Tabletop

-- Whether a failure says that an answer is not wanted, or that it calls everything off.
def Failure.Declines : Failure → Prop
  | .rejected .. => True
  | .cancelled _ => True
  | _ => False

namespace PromptKind

-- Whether a number is one that is asked for.
def Allows (kind : PromptKind) (x : Binary64) : Prop :=
  match kind with
  | .number _ min max => x.isFinite = true ∧ (∀ least, min = some least → ¬ x < least) ∧
      ∀ greatest, max = some greatest → ¬ greatest < x
  | _ => False

-- Whether all numbers that the question names are finite.
def Finite : PromptKind → Prop
  | .number default min max =>
    ∀ x, default = some x ∨ min = some x ∨ max = some x → x.isFinite = true
  | _ => True

-- Whether the number that is suggested is below the least that is allowed.
def Undercuts : PromptKind → Prop
  | .number (some suggested) (some least) _ => suggested < least
  | _ => False

end PromptKind

namespace Visit

open Act

variable {v : Visit} {s : Stage} {answer : Answer} {prompt : Prompt}

-- Whether the operation accepts an answer at a stage. No operation gets to see a dismissal.
def Takes (v : Visit) (answer : Answer) (s : Stage) : Prop :=
  answer ≠ .dismiss ∧
    ∀ failure s', (v.accept answer).run s = (.error failure, s') → ¬ failure.Declines

theorem run_lift (outcome : Except Failure α) (s : Stage) :
    (lift outcome).run s = (outcome, s) := by
  cases outcome <;> rfl

/-! Numbers -/

section

variable {label : String} {default min max : Option Binary64}

theorem acceptVariable_number (v : Visit) (label : String) (default min max : Option Binary64)
    (n : Binary64) :
    (∃ o, v.acceptVariable label default min max (.number n) = .ok o ∧
      PromptKind.Allows (.number default min max) n) ∨
    ∃ failure, v.acceptVariable label default min max (.number n) = .error failure ∧
      failure.Declines ∧ ¬ PromptKind.Allows (.number default min max) n := by
  simp only [acceptVariable, bind, Except.bind, PromptKind.Allows]
  by_cases hfinite : n.isFinite = true
  · simp only [hfinite, Bool.not_true, Bool.false_eq_true, if_false, true_and]
    cases hleast : min.filter fun least => n < least with
    | some least =>
      obtain ⟨hmin, hlt⟩ := Option.filter_eq_some_iff.1 hleast
      exact .inr ⟨_, rfl, trivial, fun h => h.1 least hmin (of_decide_eq_true hlt)⟩
    | none =>
      have hmin : ∀ least, min = some least → ¬ n < least := fun least hmin hlt => by
        simp [hmin, hlt] at hleast
      cases hgreatest : max.filter fun greatest => greatest < n with
      | some greatest =>
        obtain ⟨hmax, hlt⟩ := Option.filter_eq_some_iff.1 hgreatest
        exact .inr ⟨_, rfl, trivial, fun h => h.2 greatest hmax (of_decide_eq_true hlt)⟩
      | none =>
        refine .inl ⟨_, rfl, hmin, fun greatest hmax hlt => ?_⟩
        simp [hmax, hlt] at hgreatest
  · rw [Bool.not_eq_true] at hfinite
    simp only [hfinite, Bool.not_false, if_true]
    exact .inr ⟨_, rfl, trivial, fun h => nomatch h.1⟩

-- Any other answer stands for a number, or is not accepted.
theorem acceptVariable_stands (v : Visit) (label : String) (default min max : Option Binary64)
    (answer : Answer) :
    (∃ n, v.acceptVariable label default min max answer =
      v.acceptVariable label default min max (.number n)) ∨
    ∃ failure, v.acceptVariable label default min max answer = .error failure ∧
      failure.Declines := by
  cases answer with
  | number n => exact .inl ⟨n, rfl⟩
  | dismiss => exact .inr ⟨_, rfl, trivial⟩
  | acknowledge =>
    cases default with
    | some n => exact .inl ⟨n, rfl⟩
    | none => exact .inr ⟨_, rfl, trivial⟩
  | choice text =>
    simp only [acceptVariable]
    cases Binary64.ofText? (Text.trim text) with
    | some n => exact .inl ⟨n, rfl⟩
    | none => exact .inr ⟨_, rfl, trivial⟩

theorem run_accept_variable (hkind : v.op.kind = .variable label default min max) :
    (v.accept answer).run s =
      ((v.acceptVariable label default min max answer).map fun o => (o, none), s) := by
  simp only [accept, hkind]
  rw [run_bind, run_lift]
  cases v.acceptVariable label default min max answer <;> rfl

theorem takes_number_iff (hkind : v.op.kind = .variable label default min max) (n : Binary64) :
    v.Takes (.number n) s ↔ PromptKind.Allows (.number default min max) n := by
  simp only [Takes, run_accept_variable hkind]
  obtain ⟨o, haccept, hallows⟩ | ⟨failure, haccept, hdeclines, hforbids⟩ :=
    v.acceptVariable_number label default min max n
  · rw [haccept]
    exact iff_of_true ⟨nofun, nofun⟩ hallows
  · rw [haccept]
    exact iff_of_false (fun h => h.2 failure s rfl hdeclines) hforbids

-- Where any answer is accepted, some number is allowed.
theorem exists_of_takes (hkind : v.op.kind = .variable label default min max)
    (h : v.Takes answer s) : ∃ n, PromptKind.Allows (.number default min max) n := by
  have htakes := h.2
  rw [run_accept_variable hkind] at htakes
  obtain ⟨n, hsame⟩ | ⟨failure, haccept, hdeclines⟩ :=
    v.acceptVariable_stands label default min max answer
  · rw [hsame, ← run_accept_variable hkind] at htakes
    exact ⟨n, (takes_number_iff hkind n).1 ⟨nofun, htakes⟩⟩
  · rw [haccept] at htakes
    exact absurd hdeclines (htakes failure s rfl)

end

/-! Choices -/

theorem acceptOperation_first {operations : List String} {first : Choice} {rest : List Choice}
    (hchoices : v.candidates operations = first :: rest) :
    v.acceptOperation operations (.choice first.value) =
      .ok (.success ("chose " ++ first.value) (some (.str first.value)), some first.value) := by
  simp [acceptOperation, hchoices]

theorem takes_first_operation {operations : List String} {title : Option String} {first : Choice}
    {rest : List Choice} (hkind : v.op.kind = .selectOperation operations title)
    (hchoices : v.candidates operations = first :: rest) : v.Takes (.choice first.value) s := by
  refine ⟨nofun, fun failure s' hrun => ?_⟩
  simp only [accept, hkind, acceptOperation_first hchoices, run_lift] at hrun
  cases hrun

theorem option?_first (entry : OptionEntry) (rest : List OptionEntry) :
    option? (entry :: rest) (toString 0) = some entry := by
  have hzero : Text.toNatUpTo? (Bits.greatest 64) (toString 0) = some 0 := by decide +kernel
  simp only [option?, hzero]
  rfl

theorem acceptOption_first (v : Visit) (entry : OptionEntry) (rest : List OptionEntry) :
    ∃ outcome, v.acceptOption (entry :: rest) (.choice (toString 0)) =
      .ok (outcome, entry.continueFrom) := by
  simp only [acceptOption, List.isEmpty_cons, Bool.false_eq_true, if_false, option?_first]
  exact ⟨_, rfl⟩

theorem takes_first_option {entry : OptionEntry} {rest : List OptionEntry} {title : Option String}
    (hkind : v.op.kind = .selectOption (entry :: rest) title) :
    v.Takes (.choice (toString 0)) s := by
  refine ⟨nofun, fun failure s' hrun => ?_⟩
  obtain ⟨outcome, haccept⟩ := acceptOption_first v entry rest
  simp only [accept, hkind, haccept, run_lift] at hrun
  cases hrun

-- Nothing but that the item is done is accepted by an operation that waits for one.
theorem eq_acknowledge_of_takes {source : UseSource} (hkind : v.op.kind = .use source)
    (h : v.Takes answer s) : answer = .acknowledge := by
  have htakes := h.2 (v.rejected "expected an acknowledgement") s
  simp only [accept, hkind] at htakes
  cases answer with
  | acknowledge => rfl
  | choice | number | dismiss => exact absurd trivial (htakes rfl)

end Visit

/-! Automatic answers -/

namespace Prompt

variable {prompt : Prompt} {default min max : Option Binary64}

-- The number that stands when nobody is asked is the one that is suggested, or the greatest that is
-- allowed if that is less.
theorem automatic_number (hkind : prompt.kind = .number default min max) :
    ∃ x, prompt.automatic = .number x ∧
      (x = (default <|> min).getD 0 ∨ max = some x) ∧
      (∀ greatest, max = some greatest → ¬ greatest < x) ∧
      (((default <|> min).getD 0).isFinite = true → ¬ (default <|> min).getD 0 < x) := by
  simp only [automatic, hkind]
  generalize (default <|> min).getD 0 = start
  cases max with
  | none =>
    exact ⟨start, rfl, .inl rfl, fun _ h => (nomatch h), fun _ => Binary64.not_lt_self start⟩
  | some greatest =>
    refine ⟨_, rfl, ?_, fun _ h => ?_, Binary64.not_lt_min_left⟩
    · rcases Binary64.min_eq_or start greatest with hstart | hgreatest
      · exact .inl hstart
      · exact .inr (congrArg some hgreatest.symm)
    · cases h
      exact Binary64.not_lt_min_right _ _

theorem kind_of_automatic {x : Binary64} (h : prompt.automatic = .number x) :
    ∃ default min max, prompt.kind = .number default min max := by
  unfold automatic at h
  split at h
  · cases h
  · cases h
  · next default min max hkind => exact ⟨default, min, max, hkind⟩
  · cases h

theorem allows_automatic_iff (hkind : prompt.kind = .number default min max)
    (hfinite : prompt.kind.Finite) {n : Binary64} (hn : prompt.kind.Allows n) :
    (∀ x, prompt.automatic = .number x → prompt.kind.Allows x) ↔ ¬ prompt.kind.Undercuts := by
  rw [hkind] at hfinite hn ⊢
  obtain ⟨x, hx, horigin, hgreatest, hstart⟩ := automatic_number hkind
  simp only [hx, Answer.number.injEq, forall_eq']
  have hstartFinite : ((default <|> min).getD 0).isFinite = true := by
    cases default with
    | some suggested => exact hfinite suggested (.inl rfl)
    | none =>
      cases min with
      | some least => exact hfinite least (.inr (.inl rfl))
      | none => exact Binary64.isFinite_zero
  have hxFinite : x.isFinite = true := by
    rcases horigin with rfl | hmax
    · exact hstartFinite
    · exact hfinite x (.inr (.inr hmax))
  constructor
  · intro hallows hundercuts
    cases default with
    | none => exact hundercuts
    | some suggested =>
      cases min with
      | none => exact hundercuts
      | some least =>
        have hbelow : x < least := Binary64.lt_of_not_lt_of_lt hxFinite
          (hfinite suggested (.inl rfl)) (hfinite least (.inr (.inl rfl))) (hstart hstartFinite)
          hundercuts
        exact hallows.2.1 least rfl hbelow
  · intro hundercuts
    refine ⟨hxFinite, fun least hmin hlt => ?_, hgreatest⟩
    subst hmin
    have hleast : least.isFinite = true := hfinite least (.inr (.inl rfl))
    rcases horigin with rfl | hmax
    · -- What is suggested is not below the least, and the least itself is not.
      cases default with
      | some suggested => exact hundercuts hlt
      | none => exact Binary64.not_lt_self _ hlt
    · -- The greatest is not below a number that is allowed, nor that below the least.
      have hbelow : n < least :=
        Binary64.lt_of_not_lt_of_lt hn.1 hxFinite hleast (hn.2.2 x hmax) hlt
      exact hn.2.1 least rfl hbelow

end Prompt

namespace Visit

variable {v : Visit} {s : Stage} {answer : Answer} {prompt : Prompt}

theorem automatic_of_operation {operations : List String} {title : Option String}
    (hkind : v.op.kind = .selectOperation operations title) (hposes : v.Poses prompt.kind) :
    ∃ first rest, v.candidates operations = first :: rest ∧
      prompt.automatic = .choice first.value := by
  simp only [Poses, hkind] at hposes
  obtain ⟨first, rest, hchoices⟩ := List.exists_cons_of_ne_nil hposes.1
  exact ⟨first, rest, hchoices, by rw [Prompt.automatic, hposes.2, hchoices]⟩

theorem automatic_of_option {options : List OptionEntry} {title : Option String}
    (hkind : v.op.kind = .selectOption options title) (hposes : v.Poses prompt.kind) :
    ∃ entry rest, options = entry :: rest ∧ prompt.automatic = .choice (toString 0) := by
  simp only [Poses, hkind] at hposes
  obtain ⟨entry, rest, rfl⟩ := List.exists_cons_of_ne_nil hposes.1
  exact ⟨entry, rest, rfl, by rw [Prompt.automatic, hposes.2, List.mapIdx_cons]⟩

-- Only a number may be refused.
theorem takes_automatic (hposes : v.Poses prompt.kind) (htakes : v.Takes answer s) :
    v.Takes prompt.automatic s ↔ ∀ x, prompt.automatic = .number x → prompt.kind.Allows x := by
  have hcases := hposes
  unfold Poses at hcases
  split at hcases
  · next source hkind =>
    have hautomatic : prompt.automatic = .acknowledge := by rw [Prompt.automatic, hcases]
    obtain rfl : answer = .acknowledge := eq_acknowledge_of_takes hkind htakes
    rw [hautomatic]
    exact iff_of_true htakes fun x h => nomatch h
  · next label default min max hkind =>
    obtain ⟨x, hx, -⟩ := Prompt.automatic_number hcases
    rw [hx, takes_number_iff hkind, hcases]
    exact ⟨fun hallows y hy => Answer.number.inj hy ▸ hallows, fun h => h x rfl⟩
  · next operations title hkind =>
    obtain ⟨first, rest, hchoices, hautomatic⟩ := automatic_of_operation hkind hposes
    rw [hautomatic]
    exact iff_of_true (takes_first_operation hkind hchoices) fun x h => nomatch h
  · next options title hkind =>
    obtain ⟨entry, rest, rfl, hautomatic⟩ := automatic_of_option hkind hposes
    rw [hautomatic]
    exact iff_of_true (takes_first_option hkind) fun x h => nomatch h
  · exact hcases.elim

-- An operation that accepts any answer to what it asked accepts the automatic one, unless that is a
-- number that is not allowed. Where all numbers of the question are finite, it is not allowed
-- exactly when the one that is suggested is below the least, which the automatic answer does not
-- look at.
theorem takes_automatic_iff (hasks : v.Asks prompt) (htakes : v.Takes answer s) :
    (v.Takes prompt.automatic s ↔ ∀ x, prompt.automatic = .number x → prompt.kind.Allows x) ∧
    (prompt.kind.Finite → (v.Takes prompt.automatic s ↔ ¬ prompt.kind.Undercuts)) ∧
    ((∀ default min max, prompt.kind ≠ .number default min max) → v.Takes prompt.automatic s) := by
  have hposes := hasks.poses
  have hautomatic := takes_automatic hposes htakes
  refine ⟨hautomatic, fun hfinite => hautomatic.trans ?_, fun hkind => hautomatic.2 fun x hx => ?_⟩
  · cases hkind : prompt.kind with
    | number default min max =>
      obtain ⟨label, hop⟩ := variable_of_poses (hkind ▸ hposes)
      obtain ⟨n, hn⟩ := exists_of_takes hop htakes
      rw [← hkind] at hn ⊢
      exact Prompt.allows_automatic_iff hkind hfinite hn
    | select | acknowledge =>
      refine iff_of_true (fun x hx => ?_) id
      obtain ⟨_, _, _, hnumber⟩ := Prompt.kind_of_automatic hx
      exact nomatch hkind.symm.trans hnumber
  · obtain ⟨default, min, max, hnumber⟩ := Prompt.kind_of_automatic hx
    exact absurd hnumber (hkind default min max)

-- Who is asked for a stake of two to five, and has one suggested.
def wager : Visit where
  setting := { actor := "hero" }
  plan := { id := "bet" }
  op := { id := "stake", kind := .variable "Stake" (some 1) (some 2) (some 5) }

def table : Stage := ⟨Dict.empty, {}, Dict.empty, .highest, []⟩

theorem takes_automatic_iff_wager :
    let prompt : Prompt := ⟨"Stake", .number (some 1) (some 2) (some 5)⟩
    wager.Asks prompt ∧ prompt.kind.Finite ∧ wager.Takes (.number 3) table ∧
      ¬ wager.Takes prompt.automatic table := by
  intro prompt
  have hasks : wager.Asks prompt := ⟨_, .inl ⟨table, table, rfl⟩, rfl⟩
  have htakes : wager.Takes (.number 3) table := by
    rw [takes_number_iff rfl]
    refine ⟨by decide +kernel, fun least hleast => ?_, fun greatest hgreatest => ?_⟩
    · rw [← Option.some.inj hleast]
      decide +kernel
    · rw [← Option.some.inj hgreatest]
      decide +kernel
  have hfinite : prompt.kind.Finite := by
    rintro x (hx | hx | hx)
    all_goals
      rw [← Option.some.inj hx]
      decide +kernel
  have hundercuts : prompt.kind.Undercuts := by
    show (1 : Binary64) < 2
    decide +kernel
  refine ⟨hasks, hfinite, htakes, fun hautomatic => ?_⟩
  exact ((takes_automatic_iff hasks htakes).2.1 hfinite).1 hautomatic hundercuts

end Visit

end Tabletop
