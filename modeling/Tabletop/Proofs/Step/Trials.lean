import Tabletop.Proofs.Comparison.Duality
import Tabletop.Proofs.Step.Formulas

-- A test against many. The targets are taken in turn and share the dice, and the activity goes on
-- for those that were overcome.
namespace Tabletop

/-! What is told of a test -/

def Event.isTestResolved : Event → Bool
  | .testResolved .. => true
  | _ => false

-- Whether nothing happened in between but rolls of dice, and of tests these results were told.
structure Stage.Tells (results : List Event) (s s' : Stage) : Prop where
  records : s'.records = s.records
  world : s'.world = s.world
  told : ∃ more, s'.events = s.events ++ more ∧ more.filter Event.isTestResolved = results

namespace Stage.Tells

variable {s s' s'' : Stage} {results more : List Event}

theorem of_dice (s : Stage) (dice : Dice) : s.Tells [] { s with dice } :=
  ⟨rfl, rfl, [], (List.append_nil _).symm, rfl⟩

theorem refl (s : Stage) : s.Tells [] s := of_dice s s.dice

theorem trans (h : s.Tells results s') (h' : s'.Tells more s'') :
    s.Tells (results ++ more) s'' := by
  obtain ⟨told, htold, rfl⟩ := h.told
  obtain ⟨later, hlater, rfl⟩ := h'.told
  refine ⟨h'.records.trans h.records, h'.world.trans h.world, told ++ later, ?_,
    List.filter_append ..⟩
  rw [hlater, htold, List.append_assoc]

-- Silence does not show.
theorem trans_nil (h : s.Tells [] s') (h' : s'.Tells results s'') : s.Tells results s'' :=
  h.trans h'

theorem tell (s : Stage) {e : Event} (h : [e].filter Event.isTestResolved = results) :
    s.Tells results (s.tell e) :=
  ⟨rfl, rfl, [e], rfl, h⟩

end Stage.Tells

namespace Visit

open Act

variable {v : Visit} {s s' : Stage} {text : String} {data : RollData} {e : Evaluation}

/-! The dice -/

-- Whether a formula comes to this total when it is rolled. One that cannot be evaluated comes to
-- zero, and the dice it has rolled by then stay rolled.
def Throws (v : Visit) (records : Records) (text : String) (data : RollData) (dice : Dice)
    (total : Binary64) (dice' : Dice) : Prop :=
  ∃ resolved result, Placeholder.substitute text v.op.id records.value? = .ok resolved ∧
    (Formula.evaluate resolved data).run dice = (result, dice') ∧
    total = match result with
      | .ok e => e.total
      | .error _ => 0

theorem throws_of_evaluate (h : (v.evaluate text data).run s = (.ok e, s')) :
    v.Throws s.records text data s.dice e.total s'.dice ∧ s.Tells [] s' := by
  cases hresolved : Placeholder.substitute text v.op.id s.records.value? with
  | error failure =>
    rw [evaluate, run_bind, substitute, run_get_bind, hresolved] at h
    cases h
  | ok resolved =>
    rw [run_evaluate hresolved] at h
    rcases hrolled : (Formula.evaluate resolved data).run s.dice with ⟨failure | e', dice⟩
    · rw [hrolled] at h
      obtain ⟨hzero, rfl⟩ := Prod.mk.inj h
      obtain rfl := Except.ok.inj hzero
      exact ⟨⟨resolved, _, hresolved, hrolled, rfl⟩,
        (Stage.Tells.of_dice s dice).trans_nil (.tell _ rfl)⟩
    · rw [hrolled] at h
      cases h
      exact ⟨⟨resolved, _, hresolved, hrolled, rfl⟩, .of_dice s dice⟩

-- The modifier of a check, which is none where the data have no number for it.
def modifier (v : Visit) (check : String) (data : RollData) : Binary64 :=
  (data.number? (v.setting.rules.modifierPath check)).getD 0

theorem of_run_rollCheck {check : String} {r : CheckRoll}
    (h : (v.rollCheck check data none).run s = (.ok r, s')) :
    ∃ die, v.Throws s.records v.setting.rules.checkDie data s.dice die s'.dice ∧
      r.total = die + v.modifier check data ∧ s.Tells [] s' := by
  rw [rollCheck] at h
  obtain ⟨die, s₁, hdie, hrun⟩ := of_run_bind h
  cases hrun
  obtain ⟨hthrows, htells⟩ := throws_of_evaluate hdie
  exact ⟨die.total, hthrows, rfl, htells⟩

/-! A single target -/

-- What a target was tested with, where it was: the totals of the actor and of the target.
structure Trial where
  target : Snapshot
  totals : Option (Binary64 × Binary64)

namespace Trial

-- Whether the target was overcome: it was tested, and the actor came to more, or to as much where
-- ties are in the actor's favour.
def Won (ties : TieBreak) (t : Trial) : Prop :=
  ∃ totals ∈ t.totals,
    totals.2 < totals.1 ∨ totals.1.same totals.2 = true ∧ ties = .actor

instance (ties : TieBreak) (t : Trial) : Decidable (t.Won ties) :=
  inferInstanceAs (Decidable (∃ totals ∈ t.totals, _))

theorem wins_iff {ties : TieBreak} {attack defence : Binary64} : wins ties attack defence = true ↔
    defence < attack ∨ attack.same defence = true ∧ ties = .actor := by
  have hgreater : defence < attack ↔ attack.compare? defence = some .gt := by
    rw [Binary64.lt_iff_compare?, Binary64.compare?_swap attack defence]
    cases attack.compare? defence with
    | none => simp
    | some o => cases o <;> simp
  rw [hgreater, Binary64.same, beq_iff_eq, wins]
  cases attack.compare? defence with
  | none => simp
  | some o => cases o <;> simp

theorem won_iff {ties : TieBreak} {target : Snapshot} {attack defence : Binary64} :
    (Trial.mk target (some (attack, defence))).Won ties ↔ wins ties attack defence = true := by
  rw [wins_iff]
  simp [Won]

-- How it is told and what is recorded of it, which is nothing where there was no test.
def result? (ties : TieBreak) (t : Trial) : Option TestResult :=
  t.totals.map fun (attack, defence) => ⟨t.target, decide (t.Won ties), attack, defence⟩

end Trial

def TestResult.event (v : Visit) (r : TestResult) : Event :=
  .testResolved v.op.id r.target.id r.success r.actorTotal r.targetTotal

-- What the actor comes to, by a check of its own or by a formula.
inductive Attacks (v : Visit) (records : Records) (data : RollData) :
    TestAgainst → Dice → Binary64 → Dice → Prop where
  | check {name : String} {dice dice' : Dice} {die : Binary64} :
    v.Throws records v.setting.rules.checkDie data dice die dice' →
    Attacks v records data (.actorCheck name) dice (die + v.modifier name data) dice'
  | difficulty {formula : String} {dice dice' : Dice} {total : Binary64} :
    v.Throws records formula data dice total dice' →
    Attacks v records data (.difficulty formula) dice total dice'

-- How a target is tested: not at all where nothing is specified for it, and else its defence is
-- rolled first and then what the actor comes to.
inductive Tested (v : Visit) (specs : TestSpecs) (records : Records) (data : RollData) :
    Dice → Trial → Dice → Prop where
  | exempt {target : Snapshot} {dice : Dice} : specs.spec? target.disposition = none →
    Tested v specs records data dice ⟨target, none⟩ dice
  | resolved {target : Snapshot} {spec : TestSpec} {dice between dice' : Dice}
    {die attack : Binary64} : specs.spec? target.disposition = some spec →
    v.Throws records v.setting.rules.checkDie target.rollData dice die between →
    v.Attacks records data spec.against between attack dice' →
    Tested v specs records data dice
      ⟨target, some (attack, die + v.modifier spec.targetCheck target.rollData)⟩ dice'

variable {specs : TestSpecs}

theorem of_run_testOne {target : Snapshot} {result : Option TestResult}
    (h : (v.testOne specs data target).run s = (.ok result, s')) :
    ∃ trial : Trial, trial.target = target ∧ v.Tested specs s.records data s.dice trial s'.dice ∧
      result = trial.result? v.setting.rules.testTiesFavor ∧
      s.Tells (result.map (TestResult.event v)).toList s' := by
  unfold testOne at h
  split at h
  · next hspec =>
    cases h
    exact ⟨⟨target, none⟩, rfl, .exempt hspec, rfl, .tell s rfl⟩
  · next spec hspec =>
    obtain ⟨defence, s₁, hdefence, hrun⟩ := of_run_bind h
    obtain ⟨die, hdie, htotal, htells⟩ := of_run_rollCheck hdefence
    extract_lets finish at hrun
    obtain ⟨attack, s₂, hattack, hquiet, hlast⟩ : ∃ attack s₂,
        v.Attacks s₁.records data spec.against s₁.dice attack s₂.dice ∧ s₁.Tells [] s₂ ∧
          (finish attack).run s₂ = (.ok result, s') := by
      split at hrun
      · next name hagainst =>
        obtain ⟨r, s₂, hr, hlast⟩ := of_run_bind hrun
        obtain ⟨die, hthrows, hattack, hquiet⟩ := of_run_rollCheck hr
        exact ⟨r.total, s₂, hagainst ▸ hattack ▸ .check hthrows, hquiet, hlast⟩
      · next formula hagainst =>
        obtain ⟨e, s₂, he, hlast⟩ := of_run_bind hrun
        obtain ⟨hthrows, hquiet⟩ := throws_of_evaluate he
        exact ⟨e.total, s₂, hagainst ▸ .difficulty hthrows, hquiet, hlast⟩
    rw [htells.records] at hattack
    cases hlast
    refine ⟨⟨target, some (attack, defence.total)⟩, rfl, ?_, ?_, ?_⟩
    · rw [htotal]
      exact .resolved hspec hdie hattack
    · have hwon : decide (Trial.Won v.setting.rules.testTiesFavor
          ⟨target, some (attack, defence.total)⟩) =
          wins v.setting.rules.testTiesFavor attack defence.total := by
        rw [Bool.eq_iff_iff, decide_eq_true_iff, Trial.won_iff]
      rw [Trial.result?, Option.map_some, hwon]
    · exact htells.trans_nil (hquiet.trans_nil (.tell s₂ rfl))

/-! All targets -/

-- The targets one after another, each with the dice as the last one left them.
inductive Trials (v : Visit) (specs : TestSpecs) (records : Records) (data : RollData) :
    Dice → List Trial → Dice → Prop where
  | nil {dice : Dice} : Trials v specs records data dice [] dice
  | cons {trial : Trial} {trials : List Trial} {dice between dice' : Dice} :
    v.Tested specs records data dice trial between →
    Trials v specs records data between trials dice' →
    Trials v specs records data dice (trial :: trials) dice'

theorem of_run_tests {targets : List Snapshot} {results : List (Option TestResult)}
    (h : (targets.mapM (v.testOne specs data)).run s = (.ok results, s')) :
    ∃ trials : List Trial, trials.map Trial.target = targets ∧
      v.Trials specs s.records data s.dice trials s'.dice ∧
      results = trials.map (Trial.result? v.setting.rules.testTiesFavor) ∧
      s.Tells ((results.filterMap id).map (TestResult.event v)) s' := by
  induction targets generalizing s results with
  | nil =>
    cases h
    exact ⟨[], rfl, .nil, rfl, .refl _⟩
  | cons target targets ih =>
    rw [List.mapM_cons] at h
    obtain ⟨result, s₁, hresult, hrun⟩ := of_run_bind h
    obtain ⟨rest, s₂, hrest, hrun⟩ := of_run_bind hrun
    cases hrun
    obtain ⟨trial, rfl, htested, hfirst, htells⟩ := of_run_testOne hresult
    obtain ⟨trials, rfl, htrials, hothers, hlater⟩ := ih hrest
    rw [htells.records] at htrials
    refine ⟨trial :: trials, rfl, .cons htested htrials, by rw [hfirst, hothers]; rfl, ?_⟩
    have hall := htells.trans hlater
    cases result <;> exact hall

-- Those who are aimed at are looked up without any roll.
theorem tells_targets {targets : List Snapshot} (h : v.targets.run s = (.ok targets, s')) :
    s'.dice = s.dice ∧ s.Tells [] s' := by
  rw [Visit.targets, run_get_bind] at h
  split at h
  · cases h
    exact ⟨rfl, .refl s⟩
  · unfold selectedTargets at h
    obtain ⟨found, s₁, hfound, hrun⟩ := of_run_bind h
    cases hrun
    refine (of_run_mapM (I := fun t : Stage => t.dice = s.dice ∧ s.Tells [] t)
      (R := fun _ _ => True) (fun id _ s₂ y s₃ hs₂ hy => ?_) ⟨rfl, .refl s⟩ hfound).1
    rw [run_get_bind] at hy
    split at hy
    · cases hy
      exact ⟨hs₂, trivial⟩
    · cases hy
      exact ⟨⟨hs₂.1, hs₂.2.trans_nil (.tell s₂ rfl)⟩, trivial⟩
    · cases hy

/-! The test -/

theorem aggregate_mem (passed targets : Nat) :
    aggregate passed targets ∈ ["none", "partial", "total"] := by
  unfold aggregate
  split
  · simp
  · split <;> simp

theorem aggregate_eq_none_iff {passed targets : Nat} :
    aggregate passed targets = "none" ↔ passed = 0 := by
  unfold aggregate
  split
  · next hzero => exact iff_of_true rfl hzero
  · next hsome => split <;> exact iff_of_false (by decide) hsome

theorem aggregate_eq_total_iff {passed targets : Nat} (h : 0 < targets) :
    aggregate passed targets = "total" ↔ passed = targets := by
  unfold aggregate
  split
  · next hzero => exact iff_of_false (by decide) (by omega)
  · split
    · next hall => exact iff_of_true rfl hall
    · next hsome => exact iff_of_false (by decide) hsome

theorem map_target_successes (ties : TieBreak) (trials : List Trial) :
    ((trials.filterMap (Trial.result? ties)).filter TestResult.success).map TestResult.target =
      (trials.filter fun t => t.Won ties).map Trial.target := by
  induction trials with
  | nil => rfl
  | cons t trials ih =>
    obtain ⟨target, totals⟩ := t
    cases totals with
    | none => simpa [Trial.result?, Trial.Won] using ih
    | some totals =>
      rw [List.filterMap_cons, List.filter_cons]
      by_cases hwon : Trial.Won ties ⟨target, some totals⟩ <;>
        simpa [Trial.result?, hwon] using ih

-- What a test comes to: it sends the activity on for those who were overcome, in their order, and
-- puts on record how many they are, how the tests came out and whether they are none, all or some.
structure Concludes (v : Visit) (trials : List Trial) (outcome : Outcome) : Prop where
  result : outcome.result =
    .forked ((trials.filter fun t => t.Won v.setting.rules.testTiesFavor).map Trial.target)
  value : outcome.value =
    some (.ofNat (trials.countP fun t => t.Won v.setting.rules.testTiesFavor))
  results : Entries.find? "results" outcome.fields = some (.arr
    ((trials.filterMap (Trial.result? v.setting.rules.testTiesFavor)).map TestResult.toJson))
  word : ∃ word ∈ ["none", "partial", "total"],
    Entries.find? "outcome" outcome.fields = some (.str word) ∧
      (word = "none" ↔ ∀ t ∈ trials, ¬ t.Won v.setting.rules.testTiesFavor) ∧
      (word = "total" ↔ ∀ t ∈ trials, t.Won v.setting.rules.testTiesFavor)

-- A test that does not fail tests the targets in turn, which share the dice, and tells once of each
-- that is tested. It comes to what they come to.
theorem test_concludes {outcome : Outcome} (hkind : v.op.kind = .test specs)
    (h : v.begin.run s = (.ok outcome, s')) :
    ∃ actor trials told, s.world.read v.setting.keeper v.setting.actor = .ok actor ∧
      (∃ s₁, v.targets.run s = (.ok (trials.map Trial.target), s₁)) ∧
      v.Trials specs s.records (v.rollData actor s.records) s.dice trials s'.dice ∧
      s'.events = s.events ++ told ∧
      told.filter Event.isTestResolved = (trials.filterMap
        (Trial.result? v.setting.rules.testTiesFavor)).map (TestResult.event v) ∧
      v.Concludes trials outcome := by
  have hbegin : v.begin = v.test specs := by
    simp only [begin, hkind]
  rw [hbegin, test] at h
  obtain ⟨targets, s₁, htargets, hrun⟩ := of_run_bind h
  obtain ⟨hdice, htargeted⟩ := tells_targets htargets
  dsimp only at hrun
  split at hrun
  · cases hrun
  next hsome =>
  obtain ⟨actor, s₂, hactor, hactive⟩ := of_run_bind hrun
  obtain ⟨hread, rfl⟩ := of_run_actor hactor
  rw [run_get_bind] at hactive
  obtain ⟨results, s₃, hresults, hlast⟩ := of_run_bind hactive
  obtain ⟨trials, rfl, htrials, rfl, htells⟩ := of_run_tests hresults
  rw [hdice, htargeted.records] at htrials
  rw [htargeted.world] at hread
  have hid : (trials.map (Trial.result? v.setting.rules.testTiesFavor)).filterMap id =
      trials.filterMap (Trial.result? v.setting.rules.testTiesFavor) := by
    rw [List.filterMap_map, Function.id_comp]
  rw [hid] at hlast htells
  rw [map_target_successes, List.length_map, ← List.countP_eq_length_filter, List.length_map]
    at hlast
  obtain ⟨_, s₄, hannounce, hdone⟩ := of_run_bind hlast
  have hquiet : s₃.Tells [] s₄ ∧ s₄.dice = s₃.dice := by
    cases hannounce
    exact ⟨.tell s₃ rfl, rfl⟩
  cases hdone
  obtain ⟨-, -, told, htold, hresolved⟩ := htargeted.trans_nil (htells.trans hquiet.1)
  rw [List.append_nil] at hresolved
  refine ⟨actor, trials, told, hread, ⟨s₂, htargets⟩, hquiet.2 ▸ htrials, htold, hresolved, ?_⟩
  have hcount : 0 < trials.length := by
    simpa [List.length_pos_iff] using hsome
  refine ⟨rfl, rfl, rfl, _, aggregate_mem _ _, rfl, ?_, ?_⟩
  · rw [aggregate_eq_none_iff, List.countP_eq_zero]
    simp only [decide_eq_true_eq]
  · rw [aggregate_eq_total_iff hcount, List.countP_eq_length]
    simp only [decide_eq_true_eq]

-- Nothing is specified against the one who only looks on, and a tie is a success of the target.
def shove : Visit where
  setting := { actor := "bouncer", targets := ["thug", "onlooker", "captain"] }
  plan := { id := "brawl" }
  op := { id := "shove", kind := .test { hostile := some ⟨"balance", .actorCheck "strength"⟩ } }

def alley : Stage where
  records := {}
  ledger := {}
  world := World.ofList [
    { id := "bouncer", name := "Bouncer" },
    { id := "thug", name := "Thug", disposition := .hostile },
    { id := "onlooker", name := "Onlooker" },
    { id := "captain", name := "Captain", disposition := .hostile
      system := .obj [("checks", .obj [("balance", .int 2)])] }]
  dice := .scripted [9, 12, 11, 13] 1
  events := []

theorem test_concludes_shove :
    shove.op.kind = .test { hostile := some ⟨"balance", .actorCheck "strength"⟩ } ∧
      ∃ outcome s' trials, shove.begin.run alley = (.ok outcome, s') ∧ s'.dice.rolled = 4 ∧
        trials.map (fun t => t.target.id) = ["thug", "onlooker", "captain"] ∧
        (trials.filter fun t => t.Won .target).map (fun t => t.target.id) = ["thug"] ∧
        shove.Concludes trials outcome := by
  have hkind : shove.op.kind = .test { hostile := some ⟨"balance", .actorCheck "strength"⟩ } := rfl
  have htargets : (shove.targets.run alley).1.toOption.map (·.map Snapshot.id) =
      some ["thug", "onlooker", "captain"] := by decide +kernel
  have hforked : (shove.begin.run alley).1.toOption.map (fun outcome => match outcome.result with
      | .forked targets => targets.map Snapshot.id
      | _ => []) = some ["thug"] := by decide +kernel
  have hrolled : (shove.begin.run alley).2.dice.rolled = 4 := by decide +kernel
  refine ⟨hkind, ?_⟩
  rcases hrun : shove.begin.run alley with ⟨failure | outcome, s'⟩
  · rw [hrun] at hforked
    cases hforked
  · rw [hrun] at hforked hrolled
    obtain ⟨actor, trials, told, -, ⟨s₁, haimed⟩, -, -, -, hconcludes⟩ := test_concludes hkind hrun
    rw [haimed] at htargets
    have hids : (trials.map Trial.target).map Snapshot.id = ["thug", "onlooker", "captain"] :=
      Option.some.inj htargets
    have hwon := Option.some.inj hforked
    simp only [hconcludes.result] at hwon
    rw [List.map_map] at hids hwon
    exact ⟨outcome, s', trials, rfl, hrolled, hids, hwon, hconcludes⟩

end Visit

end Tabletop
