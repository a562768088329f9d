import Tabletop.Proofs.Step.Effects

-- What charging for an operation does: it is waived, or the costs are drawn from the pools of the
-- actor, or it fails and takes nothing.
namespace Tabletop

-- The operation tells what it does.
def Effect.telling (operation : String) : Effect where
  Allows s t := ∃ told, t.events = s.events ++ told ∧ ∀ e ∈ told, e.IsTold operation
  refl s := ⟨[], by simp⟩
  trans := by
    rintro s t u ⟨told, ht, htold⟩ ⟨more, hu, hmore⟩
    refine ⟨told ++ more, by rw [hu, ht, List.append_assoc], fun e he => ?_⟩
    obtain he | he := List.mem_append.1 he
    · exact htold e he
    · exact hmore e he

-- Dice are rolled, and warnings are told.
def Effect.asides (operation : String) : Effect where
  Allows s t := t.records = s.records ∧ t.ledger = s.ledger ∧ t.world = s.world ∧
    (telling operation).Allows s t
  refl s := ⟨rfl, rfl, rfl, (telling operation).refl s⟩
  trans := by
    rintro s t u ⟨hr, hl, hw, ht⟩ ⟨hr', hl', hw', ht'⟩
    exact ⟨hr'.trans hr, hl'.trans hl, hw'.trans hw, (telling operation).trans ht ht'⟩

namespace Visit

open Act

variable {v : Visit}

theorem changes_telling (v : Visit) : v.Changes (.telling v.op.id) where
  tells _ e he _ := ⟨[e], rfl, by simpa using he⟩
  rolls s _ := (Effect.telling v.op.id).refl s
  updates s _ _ _ _ _ := (Effect.telling v.op.id).refl s
  uses s _ _ _ _ _ := (Effect.telling v.op.id).refl s
  creates _ _ _ _ _ _ := ⟨[_], rfl, by simp [Event.IsTold]⟩
  consumes _ _ _ _ _ _ _ _ _ := ⟨[_], rfl, by simp [Event.IsTold]⟩

theorem toggles_telling (v : Visit) : v.Toggles (.telling v.op.id) where
  toAsides := v.changes_telling.toAsides
  toggles s _ _ _ _ := (Effect.telling v.op.id).refl s

theorem asides_asides (v : Visit) : v.Asides (.asides v.op.id) where
  tells s e he hpool := ⟨rfl, rfl, rfl, (changes_telling v).tells s e he hpool⟩
  rolls s dice := ⟨rfl, rfl, rfl, (changes_telling v).rolls s dice⟩

-- What a formula of the costs comes to for an actor.
def ComesTo (v : Visit) (formula : String) (data : RollData) (amount : Binary64) : Prop :=
  ∃ s s' e, (v.evaluate formula data).run s = (.ok e, s') ∧ e.total.positivePart = amount

-- What both costs come to for an actor at a stage, the action points first.
def CostsAt (v : Visit) (actor : Entity) (s : Stage) (points breath : Binary64) : Prop :=
  ∃ actions s₁ stamina s₂,
    (v.evaluate v.op.costs.actions (v.rollData actor s.records)).run s = (.ok actions, s₁) ∧
    (v.evaluate v.op.costs.stamina (v.rollData actor s.records)).run s₁ = (.ok stamina, s₂) ∧
    actions.total.positivePart = points ∧ stamina.total.positivePart = breath

-- The draws that are made on the pools of the actor, which leave out what costs nothing.
def draws (v : Visit) (points breath : Binary64) : List Draw :=
  [⟨v.pointsPool, points, "action points"⟩,
    ⟨v.setting.rules.paths.stamina, breath, "stamina"⟩].filter fun d => 0 < d.amount

-- The costs of the operation were drawn from the pools of the actor, and nothing else was changed.
structure Paid (v : Visit) (actor : Entity) (points breath : Binary64) (changes : List Change)
    (s s' : Stage) : Prop where
  read : s.world.read v.setting.keeper v.setting.actor = .ok actor
  actions : v.ComesTo v.op.costs.actions (v.rollData actor s.records) points
  stamina : v.ComesTo v.op.costs.stamina (v.rollData actor s.records) breath
  drawn : (v.draws points breath).mapM (v.draw actor) = .ok changes
  world : if changes = [] then s'.world = s.world
    else s.world.update v.setting.keeper actor.id changes = .ok s'.world
  records : s'.records = s.records
  ledger : s'.ledger = s.ledger
  events : ∃ told, s'.events = s.events ++ told ++
    [.costCharged v.op.id v.pointsPool points breath] ∧ ∀ e ∈ told, e.IsTold v.op.id

-- What comes of charging for an operation. A payment that fails takes nothing from anybody.
inductive Charging (v : Visit) (run : Run) : Except Failure Unit × Run → Prop where
  | waived : v.setting.costsApply = false ∨ v.op.costs.isFree = true ∨
      Dict.contains run.charged v.op.id = true → Charging v run (.ok (), run)
  | paid {actor : Entity} {points breath : Binary64} {changes : List Change} {stage : Stage} :
    Dict.contains run.charged v.op.id = false →
    v.Paid actor points breath changes run.toStage stage →
    Charging v run (.ok (), { run with toStage := stage, charged := run.charged.add v.op.id })
  | refused {failure : Failure} {stage : Stage} :
    (Effect.asides v.op.id).Allows run.toStage stage →
    Charging v run (.error failure, { run with toStage := stage })

theorem actor_cases (v : Visit) (s : Stage) :
    (∃ failure, v.actor.run s = (.error failure, s)) ∨
    ∃ actor, s.world.read v.setting.keeper v.setting.actor = .ok actor ∧
      v.actor.run s = (.ok actor, s) := by
  rw [actor, run_get_bind]
  split
  · next actor hread => exact .inr ⟨actor, hread, rfl⟩
  · exact .inl ⟨_, rfl⟩
  · exact .inl ⟨_, rfl⟩

theorem update_cases (keeper : Keeper) (id : String) (changes : List Change) (s : Stage) :
    (∃ failure, (update keeper id changes).run s = (.error failure, s)) ∨
    ∃ world, s.world.update keeper id changes = .ok world ∧
      (update keeper id changes).run s = (.ok (), { s with world }) := by
  rw [update, run_get_bind]
  split
  · next world hworld => exact .inr ⟨world, hworld, rfl⟩
  · exact .inl ⟨_, rfl⟩

theorem evaluate_cases {v : Visit} {text : String} (htext : v.Reads text) (data : RollData)
    (s : Stage) :
    ∃ s', (Effect.asides v.op.id).Allows s s' ∧
      ((∃ failure, (v.evaluate text data).run s = (.error failure, s')) ∨
        ∃ e, (v.evaluate text data).run s = (.ok e, s')) := by
  obtain ⟨s', hallowed, hrun⟩ := Does.cases
    (does_evaluate v.asides_asides v.failures_true htext data) (.trivial _) s
  exact ⟨s', hallowed, hrun.imp_right fun ⟨e, he, _⟩ => ⟨e, he⟩⟩

-- The changes are made, if there are any, and then the rest is done.
theorem updates_cases (keeper : Keeper) (id : String) (changes : List Change) (rest : Act α)
    (s : Stage) :
    (∃ failure, ((do
      if !changes.isEmpty then update keeper id changes
      rest) : Act α).run s = (.error failure, s)) ∨
    ∃ world, (if changes = [] then world = s.world
        else s.world.update keeper id changes = .ok world) ∧
      ((do
        if !changes.isEmpty then update keeper id changes
        rest) : Act α).run s = rest.run { s with world } := by
  by_cases hnone : changes = []
  · subst hnone
    exact .inr ⟨s.world, by simp, rfl⟩
  · have hsome : (!changes.isEmpty) = true := by simp [hnone]
    simp only [hsome, if_true, run_bind]
    rcases update_cases keeper id changes s with ⟨failure, hupdate⟩ | ⟨world, hupdated, hupdate⟩
    · rw [hupdate]
      exact .inl ⟨failure, rfl⟩
    · rw [hupdate]
      exact .inr ⟨world, by rwa [if_neg hnone], rfl⟩

theorem pay_cases (v : Visit) (s : Stage) :
    (∃ failure s', v.pay.run s = (.error failure, s') ∧ (Effect.asides v.op.id).Allows s s') ∨
    ∃ actor points breath changes s', v.pay.run s = (.ok (), s') ∧
      v.Paid actor points breath changes s s' ∧ v.CostsAt actor s points breath := by
  unfold pay
  rw [run_bind]
  rcases v.actor_cases s with ⟨failure, hactor⟩ | ⟨actor, hread, hactor⟩
  · rw [hactor]
    exact .inl ⟨failure, s, rfl, (Effect.asides v.op.id).refl s⟩
  rw [hactor]
  dsimp only
  rw [run_get_bind, run_bind]
  obtain ⟨s₁, hfirst, ⟨failure, hactions⟩ | ⟨actions, hactions⟩⟩ :=
    evaluate_cases v.reads_actions (v.rollData actor s.records) s
  · rw [hactions]
    exact .inl ⟨failure, s₁, rfl, hfirst⟩
  rw [hactions]
  dsimp only
  rw [run_bind]
  obtain ⟨s₂, hsecond, ⟨failure, hstamina⟩ | ⟨stamina, hstamina⟩⟩ :=
    evaluate_cases v.reads_stamina (v.rollData actor s.records) s₁
  · rw [hstamina]
    exact .inl ⟨failure, s₂, rfl, (Effect.asides v.op.id).trans hfirst hsecond⟩
  rw [hstamina]
  dsimp only
  have hboth := (Effect.asides v.op.id).trans hfirst hsecond
  split
  · next failure _ => exact .inl ⟨failure, s₂, rfl, hboth⟩
  · next changes hdrawn =>
    rcases updates_cases v.setting.keeper actor.id changes (emit (.costCharged v.op.id v.pointsPool
        actions.total.positivePart stamina.total.positivePart)) s₂ with
      ⟨failure, hrun⟩ | ⟨world, hworld, hrun⟩
    · exact .inl ⟨failure, s₂, hrun, hboth⟩
    · obtain ⟨hrecords, hledger, hsame, told, hevents, htold⟩ := hboth
      rw [hsame] at hworld
      exact .inr ⟨actor, _, _, changes, _, hrun, ⟨hread, ⟨_, _, _, hactions, rfl⟩,
        ⟨_, _, _, hstamina, rfl⟩, hdrawn, hworld, hrecords, hledger, told, by rw [hevents], htold⟩,
        _, _, _, _, hactions, hstamina, rfl, rfl⟩

-- Whatever comes of charging for an operation is one of the three.
theorem charging (v : Visit) (run : Run) : v.Charging run (v.charge run) := by
  unfold charge
  split
  · next hwaived =>
    refine .waived ?_
    simpa [or_assoc] using hwaived
  · next hdue =>
    have huncharged : Dict.contains run.charged v.op.id = false := by
      simp only [Bool.or_eq_true, not_or] at hdue
      simpa using hdue.2
    simp only [Run.act]
    rcases v.pay_cases run.toStage with ⟨failure, stage, hpay, hasides⟩ |
      ⟨actor, points, breath, changes, stage, hpay, hpaid, -⟩
    · rw [hpay]
      exact .refused hasides
    · rw [hpay]
      exact .paid huncharged hpaid

-- Charging leaves the records and the pools of the activity alone, and reports nothing.
theorem charge_keeps (v : Visit) (run : Run) :
    (v.charge run).2.records = run.records ∧ (v.charge run).2.ledger = run.ledger ∧
      (v.charge run).2.steps = run.steps ∧ (v.charge run).2.halts = run.halts := by
  have hcharging := v.charging run
  generalize v.charge run = charged at hcharging ⊢
  cases hcharging with
  | waived => exact ⟨rfl, rfl, rfl, rfl⟩
  | paid _ hpaid => exact ⟨hpaid.records, hpaid.ledger, rfl, rfl⟩
  | refused hasides => exact ⟨hasides.1, hasides.2.1, rfl, rfl⟩

-- So does the flipping of statuses.
theorem toggle_keeps (v : Visit) (run : Run) :
    (run.act v.toggle).2.records = run.records ∧ (run.act v.toggle).2.ledger = run.ledger := by
  have htoggles : v.Toggles
      (.keeping fun s => s.records = run.records ∧ s.ledger = run.ledger) :=
    { tells _ _ _ _ h := h, rolls _ _ h := h, toggles _ _ _ _ _ h := h }
  exact (does_toggle (F := fun _ _ => True) htoggles run.toStage).1 ⟨rfl, rfl⟩

end Visit

end Tabletop
