import Tabletop.Proofs.Walk.Cost

-- What the restoring of pools comes to: all that is to be read is read first, and then one update is
-- asked for, or two where somebody else than the acting entity is restored.
namespace Tabletop

-- Who is restored, at the cost of which components, and which pools.
structure Mend where
  recipient : Recipient
  components : List Component
  pools : List String

def OperationKind.mend? (paths : AttributePaths) : OperationKind → Option Mend
  | .heal _ resource recipient components =>
    some ⟨recipient, components, [resource.getD paths.hp]⟩
  | .consumption restores components recipient =>
    some ⟨recipient, components, restores.map Restore.resource⟩
  | _ => none

namespace Visit

open Act

variable {v : Visit} {m : Mend} {s : Stage}

def Restored.change (r : Restored) : Change := .set (r.resource ++ ".value") (.ofNumber r.after)

-- The pools of somebody, each with what it rises to.
def restoreAll (v : Visit) (target : Entity) (pools : List (String × Binary64)) :
    Except Failure (List Restored) :=
  pools.mapM fun pool => v.restorePool target pool.1 pool.2

-- Whether an entry tells what a pool of somebody held, and what it is raised to by an amount.
structure Restored.Raises (target : Entity) (pool : String × Binary64) (r : Restored) : Prop where
  resource : r.resource = pool.1
  before : target.number? (pool.1 ++ ".value") = some r.before
  after : r.after = raised r.before pool.2 (target.number? (pool.1 ++ ".max"))

theorem raises_of_restoreAll {target : Entity} {pools : List (String × Binary64)}
    {restored : List Restored} (h : v.restoreAll target pools = .ok restored) :
    List.Forall₂ (Restored.Raises target) pools restored := by
  refine (forall₂_of_mapM_ok h).imp fun pool r hr => ?_
  unfold restorePool at hr
  split at hr
  · cases hr
  · next before hbefore =>
    cases hr
    exact ⟨rfl, hbefore, rfl⟩

theorem resources_of_restoreAll {target : Entity} {pools : List (String × Binary64)}
    {restored : List Restored} (h : v.restoreAll target pools = .ok restored) :
    restored.map Restored.resource = pools.map Prod.fst := by
  have hraises := raises_of_restoreAll h
  clear h
  induction hraises with
  | nil => rfl
  | cons hfirst _ ih => rw [List.map_cons, List.map_cons, hfirst.resource, ih]

-- The values of pools that rise.
def risen (restored : List Restored) : List (String × Json) :=
  restored.map fun r => (r.resource ++ ".value", .ofNumber r.after)

theorem map_change (restored : List Restored) :
    restored.map Restored.change = (risen restored).map fun w => .set w.1 w.2 := by
  rw [risen, List.map_map]
  rfl

-- What comes of restoring pools and spending components. Nothing is spent where somebody else is not
-- restored; where the components are refused in the end, the other one stays restored.
inductive Restoring (v : Visit) (actor : Entity) (recipient : String)
    (pools : List (String × Binary64)) (spent : List Change) (s : Stage) :
    Except Failure (List Restored) × Stage → Prop where
  | refused (failure : Failure) : Restoring v actor recipient pools spent s (.error failure, s)
  | unspent {target : Entity} {restored : List Restored} {world : World} (failure : Failure) :
    recipient ≠ actor.id → s.world.read v.setting.keeper recipient = .ok target →
    v.restoreAll target pools = .ok restored →
    s.world.update v.setting.keeper recipient (restored.map Restored.change) = .ok world →
    Restoring v actor recipient pools spent s (.error failure, { s with world })
  | own {restored : List Restored} {world : World} :
    recipient = actor.id → v.restoreAll actor pools = .ok restored →
    s.world.update v.setting.keeper actor.id (restored.map Restored.change ++ spent) = .ok world →
    Restoring v actor recipient pools spent s (.ok restored, { s with world })
  | other {target : Entity} {restored : List Restored} {between world : World} :
    recipient ≠ actor.id → s.world.read v.setting.keeper recipient = .ok target →
    v.restoreAll target pools = .ok restored →
    s.world.update v.setting.keeper recipient (restored.map Restored.change) = .ok between →
    (if spent = [] then world = between
      else between.update v.setting.keeper actor.id spent = .ok world) →
    Restoring v actor recipient pools spent s (.ok restored, { s with world })

theorem entity_cases (v : Visit) (id : String) (s : Stage) :
    (∃ failure, (v.entity id).run s = (.error failure, s)) ∨
    ∃ e, s.world.read v.setting.keeper id = .ok e ∧ (v.entity id).run s = (.ok e, s) := by
  rw [entity, run_get_bind]
  split
  · next e hread => exact .inr ⟨e, hread, rfl⟩
  · exact .inl ⟨_, rfl⟩

theorem restoring (v : Visit) (actor : Entity) (recipient : String)
    (pools : List (String × Binary64)) (spent : List Change) (s : Stage) :
    v.Restoring actor recipient pools spent s ((v.restore actor recipient pools spent).run s) := by
  unfold restore
  by_cases hown : recipient = actor.id
  · simp only [hown, if_true, pure_bind]
    split
    · next failure _ => exact .refused failure
    · next restored hrestored =>
      change v.Restoring actor actor.id pools spent s
        ((do update v.setting.keeper actor.id (restored.map Restored.change ++ spent)
             return restored : Act (List Restored)).run s)
      rw [run_bind]
      rcases update_cases v.setting.keeper actor.id (restored.map Restored.change ++ spent) s with
        ⟨failure, hupdate⟩ | ⟨world, hworld, hupdate⟩
      · rw [hupdate]
        exact .refused failure
      · rw [hupdate]
        exact .own rfl hrestored hworld
  · simp only [hown, if_false]
    rw [run_bind]
    rcases v.entity_cases recipient s with ⟨failure, htarget⟩ | ⟨target, hread, htarget⟩
    · rw [htarget]
      exact .refused failure
    rw [htarget]
    dsimp only
    split
    · next failure _ => exact .refused failure
    · next restored hrestored =>
      change v.Restoring actor recipient pools spent s
        ((do update v.setting.keeper recipient (restored.map Restored.change)
             if !spent.isEmpty then update v.setting.keeper actor.id spent
             return restored : Act (List Restored)).run s)
      rw [run_bind]
      rcases update_cases v.setting.keeper recipient (restored.map Restored.change) s with
        ⟨failure, hupdate⟩ | ⟨between, hbetween, hupdate⟩
      · rw [hupdate]
        exact .refused failure
      rw [hupdate]
      dsimp only
      rcases updates_cases v.setting.keeper actor.id spent (pure restored)
        { s with world := between } with ⟨failure, hrun⟩ | ⟨world, hworld, hrun⟩
      · rw [hrun]
        exact .unspent failure hown hread hrestored hbetween
      · rw [hrun]
        exact .other hown hread hrestored hbetween hworld

-- What is read before anything is restored: the actor, the recipient, the components that are there
-- to be spent, and by how much each pool is to rise. Dice may be rolled on the way.
structure Prepares (v : Visit) (m : Mend) (s : Stage) (actor : Entity) (recipient : String)
    (pools : List (String × Binary64)) (spent : List Change) (s' : Stage) : Prop where
  read : s.world.read v.setting.keeper v.setting.actor = .ok actor
  recipient : ∃ s', (v.recipientId m.recipient).run s = (.ok recipient, s')
  spend : v.spend actor m.components = .ok spent
  pools : pools.map Prod.fst = m.pools
  asides : (Effect.asides v.op.id).Allows s s'

-- What comes of an operation that restores.
inductive Mending (v : Visit) (m : Mend) (s : Stage) : Except Failure Outcome × Stage → Prop where
  | refused {failure : Failure} {s' : Stage} : (Effect.asides v.op.id).Allows s s' →
    Mending v m s (.error failure, s')
  | failed {actor : Entity} {recipient : String} {pools : List (String × Binary64)}
    {spent : List Change} {s₁ s₂ : Stage} {failure : Failure} :
    v.Prepares m s actor recipient pools spent s₁ →
    v.Restoring actor recipient pools spent s₁ (.error failure, s₂) →
    Mending v m s (.error failure, s₂)
  | mended {actor : Entity} {recipient : String} {pools : List (String × Binary64)}
    {spent : List Change} {s₁ s₂ s₃ : Stage} {restored : List Restored} {outcome : Outcome} :
    v.Prepares m s actor recipient pools spent s₁ →
    v.Restoring actor recipient pools spent s₁ (.ok restored, s₂) →
    (Effect.asides v.op.id).Allows s₂ s₃ →
    outcome.result = .success → outcome.value = some (.ofNumber (Restored.total restored)) →
    Entries.find? "restored" outcome.fields = some (.arr (restored.map Restored.toJson)) →
    Mending v m s (.ok outcome, s₃)

theorem spendOrThrow_cases (actor : Entity) (components : List Component) (s : Stage) :
    (∃ failure, (v.spendOrThrow actor components).run s = (.error failure, s)) ∨
    ∃ spent, v.spend actor components = .ok spent ∧
      (v.spendOrThrow actor components).run s = (.ok spent, s) := by
  unfold spendOrThrow
  split
  · next spent hspent => exact .inr ⟨spent, hspent, rfl⟩
  · exact .inl ⟨_, rfl⟩

-- What follows from how the pools were restored.
theorem mending_of_restoring {actor : Entity} {recipient : String}
    {pools : List (String × Binary64)} {spent : List Change} {s₁ : Stage}
    {outcome : List Restored → Outcome} {told : List Restored → Event}
    (hprepared : v.Prepares m s actor recipient pools spent s₁)
    (htold : ∀ restored, (told restored).IsTold v.op.id ∧ ¬ (told restored).ChangesPool)
    (hresult : ∀ restored, (outcome restored).result = .success)
    (hvalue : ∀ restored, (outcome restored).value = some (.ofNumber (Restored.total restored)))
    (hfields : ∀ restored, Entries.find? "restored" (outcome restored).fields =
      some (.arr (restored.map Restored.toJson))) :
    v.Mending m s ((do
      let restored ← v.restore actor recipient pools spent
      emit (told restored)
      return outcome restored : Act Outcome).run s₁) := by
  have hrestoring := v.restoring actor recipient pools spent s₁
  rw [run_bind]
  rcases hrestored : (v.restore actor recipient pools spent).run s₁ with ⟨result, s₂⟩
  rw [hrestored] at hrestoring
  cases result with
  | error failure => exact .failed hprepared hrestoring
  | ok restored =>
    obtain ⟨hisTold, hpool⟩ := htold restored
    exact .mended hprepared hrestoring (v.asides_asides.tells s₂ _ hisTold hpool)
      (hresult restored) (hvalue restored) (hfields restored)

-- What precedes the evaluation of the formulas changes nothing but dice and warnings.
theorem mending_of_begun (pools : Entity → Stage → Act (List (String × Binary64)))
    {rest : Entity → String → List Change → List (String × Binary64) → Act Outcome}
    (hpools : ∀ actor (s : Stage), Does (.asides v.op.id) (fun _ _ => True) (pools actor s))
    (hnames : ∀ actor (s : Stage), Yields (fun ps => ps.map Prod.fst = m.pools) (pools actor s))
    (hrest : ∀ actor recipient spent ps s', v.Prepares m s actor recipient ps spent s' →
      v.Mending m s ((rest actor recipient spent ps).run s')) :
    v.Mending m s ((do
      let actor ← v.actor
      let recipient ← v.recipientId m.recipient
      let spent ← v.spendOrThrow actor m.components
      let ps ← pools actor (← get)
      rest actor recipient spent ps : Act Outcome).run s) := by
  rw [run_bind]
  rcases v.actor_cases s with ⟨failure, hactor⟩ | ⟨actor, hread, hactor⟩
  · rw [hactor]
    exact .refused ((Effect.asides v.op.id).refl s)
  rw [hactor]
  dsimp only
  rw [run_bind]
  obtain ⟨s₁, hfirst, ⟨failure, hrecipient⟩ | ⟨recipient, hrecipient, -⟩⟩ :=
    (does_recipientId v.asides_asides v.failures_true m.recipient).cases (.trivial _) s
  · rw [hrecipient]
    exact .refused hfirst
  rw [hrecipient]
  dsimp only
  rw [run_bind]
  rcases v.spendOrThrow_cases actor m.components s₁ with ⟨failure, hspend⟩ | ⟨spent, hspent, hspend⟩
  · rw [hspend]
    exact .refused hfirst
  rw [hspend]
  dsimp only
  rw [run_get_bind, run_bind]
  obtain ⟨s₂, hsecond, ⟨failure, hrun⟩ | ⟨ps, hrun, hps⟩⟩ :=
    (hpools actor s₁).cases (hnames actor s₁) s₁
  · rw [hrun]
    exact .refused ((Effect.asides v.op.id).trans hfirst hsecond)
  · rw [hrun]
    exact hrest actor recipient spent ps s₂
      ⟨hread, ⟨s₁, hrecipient⟩, hspent, hps, (Effect.asides v.op.id).trans hfirst hsecond⟩

theorem mending_heal {formula : String} {resource : Option String} {recipient : Recipient}
    {components : List Component}
    (htexts : ∀ text ∈ (OperationKind.heal formula resource recipient components).formulas,
      v.Reads text) (s : Stage) :
    v.Mending ⟨recipient, components, [resource.getD v.setting.rules.paths.hp]⟩ s
      ((v.heal formula resource recipient components).run s) := by
  have hformula := htexts formula (List.mem_singleton_self _)
  let pools (actor : Entity) (s : Stage) : Act (List (String × Binary64)) := do
    let e ← v.evaluate formula (v.rollData actor s.records)
    return [(resource.getD v.setting.rules.paths.hp, e.total)]
  have hheal : v.heal formula resource recipient components = (do
      let actor ← v.actor
      let recipient ← v.recipientId recipient
      let spent ← v.spendOrThrow actor components
      let ps ← pools actor (← get)
      let restored ← v.restore actor recipient ps spent
      let notes := "restored " ++ (Restored.total restored).format
      emit (.notification .info notes)
      return .success notes (some (.ofNumber (Restored.total restored)))
        [("resulting", .ofNumber ((restored.head?.map Restored.after).getD 0)),
          ("restored", .arr (restored.map Restored.toJson))]) := by
    simp only [heal, pools, bind_assoc, pure_bind]
    rfl
  rw [hheal]
  refine mending_of_begun pools (fun actor s => ?_) (fun actor s => ?_)
    fun actor recipient spent ps s' hprepared => ?_
  · exact .bind (does_evaluate v.asides_asides v.failures_true hformula _) fun _ => .pure _
  · exact .bind fun _ => .pure rfl
  · exact mending_of_restoring hprepared (fun _ => ⟨trivial, fun h => h⟩) (fun _ => rfl)
      (fun _ => rfl) fun _ => rfl

theorem mending_consumption {restores : List Restore} {components : List Component}
    {recipient : Recipient}
    (htexts : ∀ text ∈ (OperationKind.consumption restores components recipient).formulas,
      v.Reads text) (s : Stage) :
    v.Mending ⟨recipient, components, restores.map Restore.resource⟩ s
      ((v.consumption restores components recipient).run s) := by
  let pools (actor : Entity) (s : Stage) : Act (List (String × Binary64)) :=
    restores.mapM fun r => do
      let e ← v.evaluate r.formula (v.rollData actor s.records)
      return (r.resource, e.total)
  refine mending_of_begun pools (fun actor s => ?_) (fun actor s => ?_)
    fun actor recipient spent ps s' hprepared => ?_
  · refine .mapM fun r hr => ?_
    have hformula := htexts _ (List.mem_map_of_mem hr)
    exact .bind (does_evaluate v.asides_asides v.failures_true hformula _) fun _ => .pure _
  · intro s ps s' hrun
    have hnamed := Yields.mapM (R := fun (r : Restore) (p : String × Binary64) => p.1 = r.resource)
      (fun _ _ => .bind fun _ => .pure rfl) s ps s' hrun
    have hsame : List.Forall₂ Eq (ps.map Prod.fst) (restores.map Restore.resource) :=
      List.forall₂_map_left_iff.2 (List.forall₂_map_right_iff.2 hnamed.flip)
    rwa [List.forall₂_eq_eq_eq] at hsame
  · exact mending_of_restoring hprepared (fun _ => ⟨trivial, fun h => h⟩) (fun _ => rfl)
      (fun _ => rfl) fun _ => rfl

-- Whatever comes of an operation that restores is one of the three.
theorem mending (hkind : v.op.kind.mend? v.setting.rules.paths = some m) (s : Stage) :
    v.Mending m s (v.begin.run s) := by
  have htexts : ∀ text ∈ v.op.kind.formulas, v.Reads text := fun _ => reads_of_kind
  unfold begin
  split <;> rename_i hop <;> rw [hop] at hkind htexts <;> cases hkind
  · exact mending_heal htexts s
  · exact mending_consumption htexts s

end Visit

end Tabletop
