import Mathlib.Data.List.Forall2
import Tabletop.Step
import Tabletop.Walk.Cost

-- What acts may do to a stage, and the failures that may come of them. All operations are gone
-- through once, for any bound on the changes and any bound on the failures.
namespace Tabletop

-- A bound on what becomes of a stage: nothing, or one allowed change after another.
structure Effect where
  Allows : Stage → Stage → Prop
  refl : ∀ s, Allows s s
  trans : ∀ {s t u}, Allows s t → Allows t u → Allows s u

namespace Effect

def anything : Effect := ⟨fun _ _ => True, fun _ => trivial, fun _ _ => trivial⟩

-- What holds of the stage stays true.
def keeping (P : Stage → Prop) : Effect := ⟨fun s t => P s → P t, fun _ => id, fun h h' => h' ∘ h⟩

def sameLedger : Effect := ⟨fun s t => t.ledger = s.ledger, fun _ => rfl, fun h h' => h'.trans h⟩

end Effect

-- What an operation may tell while it is carried out.
def Event.IsTold (operation : String) : Event → Prop
  | .notification .. => True
  | .damageDealt id _ => id = operation
  | .testResolved id .. => id = operation
  | .resourceChanged id .. => id = operation
  | _ => False

def Event.ChangesPool : Event → Prop
  | .resourceChanged .. => True
  | _ => False

def Stage.tell (s : Stage) (e : Event) : Stage := { s with events := s.events ++ [e] }

-- Whether a change leaves the statuses of an entity alone. Nothing that an operation does flips a
-- status but the list of the operation itself.
def Change.KeepsStatuses : Change → Prop
  | .toggleStatus _ => False
  | _ => True

-- Whether an operation of this kind updates entities, other than by the use of items.
def OperationKind.UpdatesEntities : OperationKind → Prop
  | .attack .. | .heal .. | .consumption .. | .setFlag .. => True
  | _ => False

namespace Act

variable {E : Effect} {F G : Stage → Failure → Prop}

-- Whether an act keeps within these bounds at a stage. A failure is looked at where it leaves the
-- stage.
def DoesAt (E : Effect) (F : Stage → Failure → Prop) (s : Stage) (a : Act α) : Prop :=
  E.Allows s (a.run s).2 ∧ ∀ failure, (a.run s).1 = .error failure → F (a.run s).2 failure

def Does (E : Effect) (F : Stage → Failure → Prop) (a : Act α) : Prop := ∀ s, DoesAt E F s a

theorem run_bind (a : Act α) (f : α → Act β) (s : Stage) : (a >>= f).run s =
    match a.run s with
    | (.ok x, s') => (f x).run s'
    | (.error failure, s') => (.error failure, s') := by
  simp only [Bind.bind, ExceptT.bind, ExceptT.mk, StateT.bind, ExceptT.run]
  generalize a s = after
  obtain ⟨result, s'⟩ := after
  cases result <;> rfl

theorem run_tryCatch (a : Act α) (f : Failure → Act α) (s : Stage) :
    (tryCatch a f : Act α).run s =
      match a.run s with
      | (.ok x, s') => (.ok x, s')
      | (.error failure, s') => (f failure).run s' := by
  simp only [tryCatch, tryCatchThe, MonadExceptOf.tryCatch, ExceptT.tryCatch, ExceptT.mk,
    Bind.bind, StateT.bind, ExceptT.run]
  generalize a s = after
  obtain ⟨result, s'⟩ := after
  cases result <;> rfl

theorem run_get_bind (f : Stage → Act α) (s : Stage) : (get >>= f).run s = (f s).run s := rfl

theorem Does.allows {a : Act α} {s s' : Stage} {result : Except Failure α} (ha : Does E F a)
    (h : a.run s = (result, s')) : E.Allows s s' := by
  have hchange := (ha s).1
  rwa [h] at hchange

theorem Does.pure (a : α) : Does E F (Pure.pure a : Act α) :=
  fun s => ⟨E.refl s, fun _ h => nomatch h⟩

theorem DoesAt.throw {failure : Failure} {s : Stage} (h : F s failure) :
    DoesAt E F s (throw failure : Act α) := by
  refine ⟨E.refl s, fun failure' h' => ?_⟩
  cases h'
  exact h

theorem Does.throw {failure : Failure} (h : ∀ s, F s failure) :
    Does E F (throw failure : Act α) :=
  fun s => .throw (h s)

theorem Does.get_bind {f : Stage → Act β} (hf : ∀ s, DoesAt E F s (f s)) :
    Does E F (get >>= f) := hf

theorem DoesAt.get_bind {f : Stage → Act β} {s : Stage} (hf : DoesAt E F s (f s)) :
    DoesAt E F s (get >>= f) := hf

theorem DoesAt.modify {f : Stage → Stage} {s : Stage} (h : E.Allows s (f s)) :
    DoesAt E F s (modify f : Act Unit) :=
  ⟨h, fun _ h => nomatch h⟩

-- What follows an act is only done at the stage that the act leaves.
theorem DoesAt.bind_of {a : Act α} {f : α → Act β} {s : Stage} (ha : DoesAt E F s a)
    (hf : ∀ x s', a.run s = (.ok x, s') → DoesAt E F s' (f x)) : DoesAt E F s (a >>= f) := by
  obtain ⟨hchange, hfailure⟩ := ha
  rw [DoesAt, run_bind]
  rcases hrun : a.run s with ⟨result, s'⟩
  rw [hrun] at hchange hfailure
  cases result with
  | ok x => exact ⟨E.trans hchange (hf x s' hrun).1, (hf x s' hrun).2⟩
  | error failure =>
    refine ⟨hchange, fun failure' h => hfailure failure' ?_⟩
    cases h
    rfl

theorem DoesAt.bind {a : Act α} {f : α → Act β} {s : Stage} (ha : DoesAt E F s a)
    (hf : ∀ x, Does E F (f x)) : DoesAt E F s (a >>= f) :=
  ha.bind_of fun x s' _ => hf x s'

theorem Does.bind {a : Act α} {f : α → Act β} (ha : Does E F a) (hf : ∀ x, Does E F (f x)) :
    Does E F (a >>= f) :=
  fun s => .bind (ha s) hf

-- A failure that is caught is none.
theorem Does.tryCatch {a : Act α} {f : Failure → Act α} (ha : Does E G a)
    (hf : ∀ s failure, G s failure → DoesAt E F s (f failure)) : Does E F (tryCatch a f) := by
  intro s
  obtain ⟨hchange, hfailure⟩ := ha s
  rw [DoesAt, run_tryCatch]
  generalize a.run s = taken at hchange hfailure
  obtain ⟨result, s'⟩ := taken
  cases result with
  | ok x => exact ⟨hchange, fun _ h => nomatch h⟩
  | error failure =>
    have hcaught := hf s' failure (hfailure failure rfl)
    exact ⟨E.trans hchange hcaught.1, hcaught.2⟩

theorem Does.mapM {f : α → Act β} {xs : List α} (hf : ∀ x ∈ xs, Does E F (f x)) :
    Does E F (xs.mapM f) := by
  induction xs with
  | nil => exact .pure _
  | cons x xs ih =>
    rw [List.forall_mem_cons] at hf
    rw [List.mapM_cons]
    exact .bind hf.1 fun _ => .bind (ih hf.2) fun _ => .pure _

theorem Does.forM {f : α → Act PUnit} (hf : ∀ x, Does E F (f x)) (xs : List α) :
    Does E F (xs.forM f) := by
  induction xs with
  | nil => exact .pure _
  | cons x xs ih => exact .bind (hf x) fun _ => ih

theorem Does.forIn {f : α → β → Act (ForInStep β)} {xs : List α}
    (hf : ∀ x ∈ xs, ∀ b, Does E F (f x b)) (b : β) : Does E F (forIn xs b f) := by
  induction xs generalizing b with
  | nil => exact .pure _
  | cons x xs ih =>
    rw [List.forall_mem_cons] at hf
    rw [List.forIn_cons]
    refine .bind (hf.1 b) fun stepped => ?_
    cases stepped with
    | done b => exact .pure _
    | yield b => exact ih hf.2 b

theorem Does.emit {e : Event} (h : ∀ s : Stage, E.Allows s (s.tell e)) : Does E F (Act.emit e) :=
  fun s => .modify (h s)

/-! What comes of an act that does not fail -/

variable {P : α → Prop}

-- Whether an act that does not fail yields something of this kind.
def Yields (P : α → Prop) (a : Act α) : Prop := ∀ s x s', a.run s = (.ok x, s') → P x

theorem Yields.pure {x : α} (h : P x) : Yields P (Pure.pure x : Act α) := by
  intro s y s' hrun
  cases hrun
  exact h

theorem Yields.throw (failure : Failure) : Yields P (throw failure : Act α) :=
  fun _ _ _ hrun => nomatch hrun

theorem Yields.trivial (a : Act α) : Yields (fun _ => True) a := fun _ _ _ _ => True.intro

theorem Yields.imp {Q : α → Prop} {a : Act α} (ha : Yields P a) (h : ∀ x, P x → Q x) : Yields Q a :=
  fun s x s' hrun => h x (ha s x s' hrun)

-- An act that follows another does not fail unless the first one does.
theorem of_run_bind {a : Act β} {f : β → Act α} {s s' : Stage} {y : α}
    (h : (a >>= f).run s = (.ok y, s')) :
    ∃ x s₁, a.run s = (.ok x, s₁) ∧ (f x).run s₁ = (.ok y, s') := by
  rw [run_bind] at h
  split at h
  · next x s₁ hx => exact ⟨x, s₁, hx, h⟩
  · cases h

-- What comes of an act that follows another is what the second one yields.
theorem Yields.bind_yields {Q : β → Prop} {a : Act β} {f : β → Act α} (ha : Yields Q a)
    (hf : ∀ x, Q x → Yields P (f x)) : Yields P (a >>= f) := by
  intro s y s' hrun
  obtain ⟨x, s₁, hx, hy⟩ := of_run_bind hrun
  exact hf x (ha s x s₁ hx) s₁ y s' hy

theorem Yields.bind {a : Act β} {f : β → Act α} (hf : ∀ x, Yields P (f x)) :
    Yields P (a >>= f) :=
  .bind_yields (.trivial a) fun x _ => hf x

theorem Yields.map {Q : β → Prop} {a : Act β} {f : β → α} (ha : Yields Q a)
    (hf : ∀ x, Q x → P (f x)) : Yields P (do return f (← a)) :=
  .bind_yields ha fun x hx => .pure (hf x hx)

-- What single acts yield for what they are done for, a list of them yields one by one. They go on
-- from stages as they leave them.
theorem of_run_mapM {I : Stage → Prop} {R : α → β → Prop} {f : α → Act β} {xs : List α} {ys : List β}
    {s s' : Stage}
    (hf : ∀ x ∈ xs, ∀ s y s', I s → (f x).run s = (.ok y, s') → I s' ∧ R x y) (hs : I s)
    (h : (xs.mapM f).run s = (.ok ys, s')) : I s' ∧ List.Forall₂ R xs ys := by
  induction xs generalizing s ys with
  | nil =>
    cases h
    exact ⟨hs, .nil⟩
  | cons x xs ih =>
    rw [List.forall_mem_cons] at hf
    rw [List.mapM_cons] at h
    obtain ⟨y, s₁, hy, hrun⟩ := of_run_bind h
    obtain ⟨rest, s₂, hrest, hrun⟩ := of_run_bind hrun
    cases hrun
    obtain ⟨hs₁, hfirst⟩ := hf.1 _ _ _ hs hy
    obtain ⟨hs', hothers⟩ := ih hf.2 hs₁ hrest
    exact ⟨hs', .cons hfirst hothers⟩

theorem Yields.mapM {R : α → β → Prop} {f : α → Act β} {xs : List α}
    (hf : ∀ x ∈ xs, Yields (R x) (f x)) : Yields (List.Forall₂ R xs) (xs.mapM f) :=
  fun _ _ _ h => (of_run_mapM (I := fun _ => True)
    (fun x hx s y s' _ hy => ⟨True.intro, hf x hx s y s' hy⟩) True.intro h).2

theorem Yields.mapM_length {f : α → Act β} (xs : List α) :
    Yields (fun ys => ys.length = xs.length) (xs.mapM f) :=
  fun s ys s' hrun =>
    (Yields.mapM (fun x _ => .trivial (f x)) s ys s' hrun).length_eq.symm

-- An act fails or not, and leaves a stage within its bound either way.
theorem Does.cases {a : Act α} (ha : Does E F a) (hyields : Yields P a) (s : Stage) :
    ∃ s', E.Allows s s' ∧ ((∃ failure, a.run s = (.error failure, s')) ∨
      ∃ x, a.run s = (.ok x, s') ∧ P x) := by
  have hallowed := (ha s).1
  rcases hrun : a.run s with ⟨result, s'⟩
  rw [hrun] at hallowed
  cases result with
  | error failure => exact ⟨s', hallowed, .inl ⟨failure, rfl⟩⟩
  | ok x => exact ⟨s', hallowed, .inr ⟨x, rfl, hyields s x s' hrun⟩⟩

-- What follows an act is only done with what it yields.
theorem Does.bind_yields {a : Act α} {f : α → Act β} (ha : Does E F a) (hyields : Yields P a)
    (hf : ∀ x, P x → Does E F (f x)) : Does E F (a >>= f) :=
  fun s => (ha s).bind_of fun x s' hrun => hf x (hyields s x s' hrun) s'

end Act

namespace Visit

open Act

-- Whether a bound allows warnings and rolls of the dice, which any formula may cause, and all that
-- is told but the change of a pool.
structure Asides (v : Visit) (E : Effect) : Prop where
  tells : ∀ (s : Stage) e, e.IsTold v.op.id → ¬ e.ChangesPool → E.Allows s (s.tell e)
  rolls : ∀ (s : Stage) dice, E.Allows s { s with dice }

-- Whether it allows updates of entities as well, but for their statuses.
structure Updates (v : Visit) (E : Effect) : Prop extends v.Asides E where
  updates : ∀ (s : Stage) id changes world, (∀ change ∈ changes, change.KeepsStatuses) →
    s.world.update v.setting.keeper id changes = .ok world → E.Allows s { s with world }

-- Whether it allows to flip the statuses that the operation lists, which are those of the actor.
structure Toggles (v : Visit) (E : Effect) : Prop extends v.Asides E where
  toggles : ∀ (s : Stage) actor world,
    s.world.read v.setting.keeper v.setting.actor = .ok actor →
    s.world.update v.setting.keeper actor.id (v.op.toggles.statuses.map Change.toggleStatus) =
      .ok world →
    E.Allows s { s with world }

-- Whether it allows what the operation does to pools of the activity. A pool is changed and told of
-- in one.
structure Pools (v : Visit) (E : Effect) : Prop extends v.Asides E where
  creates : ∀ (s : Stage) (resource : Resource),
    v.op.kind = .createResource resource.name resource.maximumFormula resource.negativeAllowed
      resource.reset → resource.id = v.op.id →
    resource.maximum = resource.value → Dict.find? s.ledger resource.id = none →
    E.Allows s (Stage.tell { s with ledger := (s.ledger.create resource).2 }
      (.resourceChanged v.op.id resource.name resource.value))
  consumes : ∀ (s : Stage) resource amount x left ledger name,
    v.op.kind = .consumeResource resource amount → s.ledger.consume resource x = .ok (left, ledger) →
    E.Allows s (Stage.tell
      { s with ledger, records := s.records.setValue resource (.ofNumber left) }
      (.resourceChanged v.op.id name left))

-- Whether it allows the acting entity to use the items that it has.
structure Uses (v : Visit) (E : Effect) : Prop where
  uses : ∀ (s : Stage) actor reference item,
    s.world.read v.setting.keeper v.setting.actor = .ok actor → actor.item? reference = some item →
    E.Allows s { s with world := (v.setting.useItem v.setting.keeper actor item s.world).2 }

-- Whether it allows all that carrying out the operation can change.
structure Changes (v : Visit) (E : Effect) : Prop extends v.Updates E, v.Pools E, v.Uses E

-- Whether the placeholders of a text are replaced while the operation is paid for or carried out:
-- those of its own texts, and those of the die of checks.
def Reads (v : Visit) (text : String) : Prop :=
  text ∈ v.op.formulas ∨ text = v.setting.rules.checkDie

theorem reads_actions (v : Visit) : v.Reads v.op.costs.actions :=
  .inl (List.mem_append_right _ List.mem_cons_self)

theorem reads_stamina (v : Visit) : v.Reads v.op.costs.stamina :=
  .inl (List.mem_append_right _ (List.mem_cons_of_mem _ List.mem_cons_self))

theorem reads_of_kind {v : Visit} {text : String} (h : text ∈ v.op.kind.formulas) : v.Reads text :=
  .inl (List.mem_append_left _ h)

-- Whether a bound holds of all failures that can come of carrying out the operation, and of the
-- stages that they leave.
structure Fails (v : Visit) (F : Stage → Failure → Prop) : Prop where
  objects : ∀ message s, F s (v.precondition message)
  unresolved : ∀ (s : Stage) text failure, v.Reads text →
    Placeholder.substitute text v.op.id s.records.value? = .error failure → F s failure
  misrolls : ∀ (sides : Nat) dice failure, 0 < sides → sides ≤ v.setting.targets.length →
    ((Formula.evaluate ("1d" ++ toString sides) Dict.empty).run dice).1 = .error failure →
    ∀ s, F s failure
  unread : ∀ (world : World) id failure,
    world.read v.setting.keeper id = .error failure → ∀ s, F s failure
  refused : ∀ (world : World) id changes failure,
    world.update v.setting.keeper id changes = .error failure → ∀ s, F s failure
  unused : ∀ actor item world failure,
    (v.setting.useItem v.setting.keeper actor item world).1 = .error failure → ∀ s, F s failure

-- A bound on failures that does not look at the stages.
abbrev Failures (v : Visit) (F : Failure → Prop) : Prop := v.Fails fun _ failure => F failure

theorem asides_sameLedger (v : Visit) : v.Asides .sameLedger := ⟨fun _ _ _ _ => rfl, fun _ _ => rfl⟩

theorem failures_true (v : Visit) : v.Failures fun _ => True :=
  ⟨by simp, by simp, by simp, by simp, by simp, by simp⟩

theorem changes_anything (v : Visit) : v.Changes .anything :=
  { tells _ _ _ _ := trivial, rolls _ _ := trivial, updates _ _ _ _ _ _ := trivial,
    uses _ _ _ _ _ _ := trivial, creates _ _ _ _ _ _ := trivial,
    consumes _ _ _ _ _ _ _ _ _ := trivial }

end Visit

-- A formula that cannot be evaluated fails as such, and never in another way.
theorem Formula.kind_evaluate {text : String} {data : RollData} {dice : Dice} {failure : Failure}
    (h : ((Formula.evaluate text data).run dice).1 = .error failure) :
    failure.kind = .evaluation := by
  unfold Formula.evaluate at h
  split at h
  · cases h
  · split at h
    · cases h
      rfl
    · next formula _ =>
      simp only [ExceptT.run] at h
      split at h
      · cases h
      · cases h
        rfl

-- What fails over a list fails for one of its items.
theorem exists_of_mapM_error {f : α → Except ε β} {xs : List α} {e : ε}
    (h : xs.mapM f = .error e) : ∃ x ∈ xs, f x = .error e := by
  induction xs with
  | nil => cases h
  | cons x xs ih =>
    rw [List.mapM_cons] at h
    cases hx : f x with
    | error e' =>
      rw [hx] at h
      cases h
      exact ⟨x, List.mem_cons_self, hx⟩
    | ok y =>
      cases hxs : xs.mapM f with
      | error e' =>
        rw [hx, hxs] at h
        cases h
        obtain ⟨x', hmem, hx'⟩ := ih hxs
        exact ⟨x', List.mem_cons_of_mem x hmem, hx'⟩
      | ok ys =>
        rw [hx, hxs] at h
        cases h

-- What comes of a list is what comes of its items, one by one.
theorem forall₂_of_mapM_ok {f : α → Except ε β} {xs : List α} {ys : List β}
    (h : xs.mapM f = .ok ys) : List.Forall₂ (fun x y => f x = .ok y) xs ys := by
  induction xs generalizing ys with
  | nil =>
    cases h
    exact .nil
  | cons x xs ih =>
    rw [List.mapM_cons] at h
    cases hx : f x with
    | error e =>
      rw [hx] at h
      cases h
    | ok y =>
      cases hxs : xs.mapM f with
      | error e =>
        rw [hx, hxs] at h
        cases h
      | ok rest =>
        rw [hx, hxs] at h
        cases h
        exact .cons hx (ih hxs)

theorem exists_of_forall₂ {R : α → β → Prop} {xs : List α} {ys : List β}
    (h : List.Forall₂ R xs ys) : ∀ y ∈ ys, ∃ x ∈ xs, R x y := by
  induction h with
  | nil => exact List.forall_mem_nil _
  | cons hfirst _ ih =>
    refine List.forall_mem_cons.2 ⟨⟨_, List.mem_cons_self, hfirst⟩, fun y hy => ?_⟩
    obtain ⟨x, hx, hxy⟩ := ih y hy
    exact ⟨x, List.mem_cons_of_mem _ hx, hxy⟩

theorem forall_of_mapM_ok {f : α → Except ε β} {P : β → Prop} {xs : List α} {ys : List β}
    (hf : ∀ x y, f x = .ok y → P y) (h : xs.mapM f = .ok ys) : ∀ y ∈ ys, P y := by
  intro y hy
  obtain ⟨x, -, hx⟩ := exists_of_forall₂ (forall₂_of_mapM_ok h) y hy
  exact hf x y hx

namespace Visit

open Act

variable {v : Visit} {E : Effect} {F : Stage → Failure → Prop}

theorem does_lift {outcome : Except Failure α}
    (h : ∀ failure, outcome = .error failure → ∀ s, F s failure) : Does E F (lift outcome) := by
  cases outcome with
  | ok a => exact .pure a
  | error failure => exact .throw (h failure rfl)

theorem does_announce (hE : v.Asides E) (level : Level) (message : String) :
    Does E F (Act.announce level message) :=
  .emit fun s => hE.tells s _ trivial fun h => h

theorem does_update (hE : v.Updates E) (hF : v.Fails F) (id : String) {changes : List Change}
    (hchanges : ∀ change ∈ changes, change.KeepsStatuses) :
    Does E F (Act.update v.setting.keeper id changes) := by
  refine .get_bind fun s => ?_
  split
  · next world hworld =>
    exact ⟨hE.updates s id changes world hchanges hworld, fun _ h => nomatch h⟩
  · next failure hfailure => exact .throw (hF.refused _ _ _ _ hfailure s)

theorem does_entity (hF : v.Fails F) (id : String) : Does E F (v.entity id) := by
  refine .get_bind fun s => ?_
  split
  · exact Does.pure _ s
  · next failure hfailure => exact .throw (hF.unread _ _ _ hfailure s)

theorem of_run_entity {id : String} {e : Entity} {s s' : Stage}
    (h : (v.entity id).run s = (.ok e, s')) :
    s.world.read v.setting.keeper id = .ok e ∧ s' = s := by
  rw [entity, run_get_bind] at h
  split at h
  · next e' hread =>
    cases h
    exact ⟨hread, rfl⟩
  · cases h

theorem does_actor (hF : v.Fails F) : Does E F v.actor := by
  refine .get_bind fun s => ?_
  split
  · exact Does.pure _ s
  · exact Does.throw (hF.objects _) s
  · next failure hfailure => exact .throw (hF.unread _ _ _ hfailure s)

theorem of_run_actor {actor : Entity} {s s' : Stage} (h : v.actor.run s = (.ok actor, s')) :
    s.world.read v.setting.keeper v.setting.actor = .ok actor ∧ s' = s := by
  rw [Visit.actor, run_get_bind] at h
  split at h
  · next actor' hread =>
    cases h
    exact ⟨hread, rfl⟩
  · cases h
  · cases h

theorem does_substitute (hF : v.Fails F) {text : String} (htext : v.Reads text) :
    Does E F (v.substitute text) := by
  refine .get_bind fun s => ?_
  split
  · exact Does.pure _ s
  · next failure hfailure => exact .throw (hF.unresolved s _ _ htext hfailure)

theorem run_substitute {text resolved : String} {s : Stage}
    (h : Placeholder.substitute text v.op.id s.records.value? = .ok resolved) :
    (v.substitute text).run s = (.ok resolved, s) := by
  rw [substitute, run_get_bind, h]
  rfl

-- Dice stay rolled when the formula fails in the end.
theorem run_roll (text : String) (data : RollData) (s : Stage) : (roll text data).run s =
    (((Formula.evaluate text data).run s.dice).1,
      { s with dice := ((Formula.evaluate text data).run s.dice).2 }) := rfl

theorem does_roll (hE : v.Asides E) (text : String) (data : RollData) :
    Does E (fun _ failure => ∃ dice, ((Formula.evaluate text data).run dice).1 = .error failure)
      (roll text data) := by
  intro s
  rw [DoesAt, run_roll]
  exact ⟨hE.rolls s _, fun failure h => ⟨s.dice, h⟩⟩

theorem does_evaluate (hE : v.Asides E) (hF : v.Fails F) {text : String} (htext : v.Reads text)
    (data : RollData) : Does E F (v.evaluate text data) := by
  unfold evaluate
  refine .bind (does_substitute hF htext) fun resolved => ?_
  refine .tryCatch (does_roll hE resolved data) fun s failure hfailure => ?_
  obtain ⟨dice, hfailure⟩ := hfailure
  have hcaught : failure.halts = false := by simp [Failure.halts, Formula.kind_evaluate hfailure]
  rw [hcaught]
  exact .bind (does_announce hE _ _ s) fun _ => .pure _

theorem does_selectedTargets (hE : v.Asides E) (hF : v.Fails F) :
    Does E F v.selectedTargets := by
  unfold selectedTargets
  refine .bind (.mapM fun id _ => ?_) fun _ => .pure _
  refine .get_bind fun s => ?_
  split
  · exact Does.pure _ s
  · exact .bind (does_announce hE _ _ s) fun _ => .pure _
  · next failure hfailure => exact .throw (hF.unread _ _ _ hfailure s)

-- Nobody is found who was not selected.
theorem yields_selectedTargets (v : Visit) :
    Yields (fun found => found.length ≤ v.setting.targets.length) v.selectedTargets :=
  .map (.mapM_length _) fun _ hfound => hfound ▸ List.length_filterMap_le _ _

theorem does_targets (hE : v.Asides E) (hF : v.Fails F) : Does E F v.targets := by
  refine .get_bind fun s => ?_
  split
  · exact Does.pure _ s
  · exact does_selectedTargets hE hF s

-- Whether a bound allows to write the hit points of these entities.
def Strikes (v : Visit) (E : Effect) (ids : List String) : Prop :=
  ∀ id ∈ ids, ∀ (s : Stage) value world,
    s.world.update v.setting.keeper id [.set (v.setting.rules.paths.hp ++ ".value") value] =
      .ok world → E.Allows s { s with world }

theorem Updates.strikes (hE : v.Updates E) (ids : List String) : v.Strikes E ids :=
  fun id _ s value world hworld => hE.updates s id _ world (by simp [Change.KeepsStatuses]) hworld

theorem does_applyDamage (hE : v.Asides E) (hF : v.Fails F) (d : DamageDealt) {target : String}
    (hstrikes : v.Strikes E [target]) : Does E F (v.applyDamage d target) := by
  unfold applyDamage
  refine .bind (does_entity hF target) fun e => ?_
  extract_lets hpPath
  cases e.number? hpPath with
  | none => exact does_announce hE _ _
  | some hp =>
    refine .get_bind fun s => ?_
    split
    · next world hworld =>
      exact ⟨hstrikes target (List.mem_singleton_self _) s _ world hworld, fun _ h => nomatch h⟩
    · next failure hfailure => exact .throw (hF.refused _ _ _ _ hfailure s)

theorem DamageRoll.target_mem {rolls : List DamageRoll} {recipients : List (Option String)}
    {d : DamageDealt} (h : d ∈ rolls.flatMap fun r => r.dealt recipients) :
    d.target ∈ recipients := by
  obtain ⟨r, -, hd⟩ := List.mem_flatMap.1 h
  obtain ⟨target, htarget, rfl⟩ := List.mem_map.1 hd
  exact htarget

-- Nobody is struck but the targets of the operation.
theorem doesAt_attack (hE : v.Asides E) (hF : v.Fails F) {damages : List Damage} {apply : Bool}
    (htexts : ∀ text ∈ (OperationKind.attack damages apply).formulas, v.Reads text) {s : Stage}
    (hstrikes : ∀ targets s', v.targets.run s = (.ok targets, s') →
      v.Strikes E (targets.map Snapshot.id)) : DoesAt E F s (v.attack damages apply) := by
  unfold attack
  refine .bind_of (does_targets hE hF s) fun targets s' htargets => ?_
  extract_lets recipients rest
  have hrecipients : ∀ id, some id ∈ recipients → id ∈ targets.map Snapshot.id := by
    intro id hid
    simp only [recipients] at hid
    split at hid
    · simp at hid
    · simpa using hid
  have hrest : ∀ u, Does E F (rest u) := by
    intro u
    refine .bind (does_actor hF) fun actor => .get_bind fun s => ?_
    refine .bind (Does.mapM (fun damage hdamage => ?_) s) fun rolls => ?_
    · have hformula := htexts _ (List.mem_map_of_mem hdamage)
      exact .bind (does_evaluate hE hF hformula _) fun _ => .pure _
    · refine .bind (.forIn (fun d hd _ => ?_) _) fun _ => .pure _
      refine .bind (.emit fun s => hE.tells s _ rfl fun h => h) fun _ => ?_
      split
      · next target htarget =>
        have hstruck : v.Strikes E [target] := List.forall_mem_singleton.2
          (hstrikes targets s' htargets target
            (hrecipients target (htarget ▸ DamageRoll.target_mem hd)))
        exact .bind (does_applyDamage hE hF _ hstruck) fun _ => .pure _
      · exact .pure _
  split
  · exact (Does.bind (.throw (hF.objects _)) fun u => hrest u) s'
  · exact hrest () s'

theorem does_attack (hE : v.Updates E) (hF : v.Fails F) {damages : List Damage} {apply : Bool}
    (htexts : ∀ text ∈ (OperationKind.attack damages apply).formulas, v.Reads text) :
    Does E F (v.attack damages apply) :=
  fun _ => doesAt_attack hE.toAsides hF htexts fun _ _ _ => hE.strikes _

theorem does_rollCheck (hE : v.Asides E) (hF : v.Fails F) (check : String) (data : RollData)
    (override : Option RollOverride) : Does E F (v.rollCheck check data override) :=
  .bind (does_evaluate hE hF (.inr rfl) _) fun _ => .pure _

theorem does_check (hE : v.Asides E) (hF : v.Fails F) {name : String}
    {override : Option RollOverride} {difficulty : Option String}
    (htexts : ∀ text ∈ (OperationKind.check name override difficulty).formulas, v.Reads text) :
    Does E F (v.check name override difficulty) := by
  unfold check
  refine .bind (does_actor hF) fun actor => .get_bind fun s => ?_
  refine .bind (does_rollCheck hE hF _ _ _ s) fun result => ?_
  cases difficulty with
  | some formula =>
    have hformula := htexts formula (List.mem_singleton_self _)
    refine .bind (does_evaluate hE hF hformula _) fun target => .bind (.pure _) fun success => ?_
    exact .bind (does_announce hE _ _) fun _ => .pure _
  | none => exact .bind (.pure _) fun _ => .bind (does_announce hE _ _) fun _ => .pure _

-- The difficulty of a test, whoever it is for, is one of the formulas.
theorem difficulty_mem_formulas {specs : TestSpecs} {d : Disposition} {check formula : String}
    (h : specs.spec? d = some ⟨check, .difficulty formula⟩) :
    formula ∈ (OperationKind.test specs).formulas := by
  rw [OperationKind.formulas, List.mem_filterMap]
  refine ⟨some ⟨check, .difficulty formula⟩, ?_, rfl⟩
  have hor : ∀ {own : Option TestSpec}, (own <|> specs.default) = some ⟨check, .difficulty formula⟩ →
      own = some ⟨check, .difficulty formula⟩ ∨ specs.default = some ⟨check, .difficulty formula⟩ := by
    intro own hown
    cases own with
    | none => exact .inr hown
    | some spec => exact .inl hown
  unfold TestSpecs.spec? at h
  cases d <;> rcases hor h with hspec | hspec <;> simp [hspec]

theorem does_testOne (hE : v.Asides E) (hF : v.Fails F) {specs : TestSpecs}
    (htexts : ∀ text ∈ (OperationKind.test specs).formulas, v.Reads text) (data : RollData)
    (target : Snapshot) : Does E F (v.testOne specs data target) := by
  unfold testOne
  split
  · exact .bind (does_announce hE _ _) fun _ => .pure _
  · next spec hspec =>
    refine .bind (does_rollCheck hE hF _ _ _) fun defence => ?_
    extract_lets rest
    have hrest : ∀ total, Does E F (rest total) := fun total =>
      .bind (.emit fun s => hE.tells s _ rfl fun h => h) fun _ => .pure _
    obtain ⟨check, against⟩ := spec
    cases against with
    | actorCheck name =>
      exact .bind (does_rollCheck hE hF _ _ _) fun _ => .bind (.pure _) fun _ => hrest _
    | difficulty formula =>
      have hformula := htexts formula (difficulty_mem_formulas hspec)
      exact .bind (does_evaluate hE hF hformula _) fun _ => .bind (.pure _) fun _ => hrest _

theorem does_test (hE : v.Asides E) (hF : v.Fails F) {specs : TestSpecs}
    (htexts : ∀ text ∈ (OperationKind.test specs).formulas, v.Reads text) :
    Does E F (v.test specs) := by
  unfold test
  refine .bind (does_targets hE hF) fun targets => ?_
  extract_lets rest
  have hrest : ∀ u, Does E F (rest u) := by
    intro u
    refine .bind (does_actor hF) fun actor => .get_bind fun s => ?_
    refine .bind (Does.mapM (fun target _ => does_testOne hE hF htexts _ target) s) fun results => ?_
    exact .bind (does_announce hE _ _) fun _ => .pure _
  split
  · exact .bind (.throw (hF.objects _)) fun u => hrest u
  · exact hrest ()

theorem does_condition (hF : v.Fails F) {conditions : List Predicate} {proceedAnyway : Bool}
    (htexts : ∀ text ∈ (OperationKind.condition conditions proceedAnyway).formulas,
      v.Reads text) : Does E F (v.condition conditions proceedAnyway) := by
  unfold condition
  refine .bind (does_actor hF) fun actor => .get_bind fun s => ?_
  refine .bind (Does.mapM (fun p hp => ?_) s) fun verdicts => ?_
  · refine .get_bind fun s => ?_
    have hvalue := htexts _ (List.mem_map_of_mem (List.mem_mergeSort.1 hp))
    exact .bind (does_substitute hF hvalue s) fun _ => .pure _
  · dsimp only
    split
    · exact .pure _
    · split <;> exact .pure _

theorem does_target (hE : v.Asides E) (hF : v.Fails F) (appliesTo : AppliesTo) :
    Does E F (v.target appliesTo) := by
  unfold target
  refine .bind_yields (does_selectedTargets hE hF) v.yields_selectedTargets fun selected hfew => ?_
  extract_lets forked rest
  have hforked : ∀ chosen, Does E F (forked chosen) := fun _ => .pure _
  split
  · exact .bind_yields (P := fun _ => False) (.throw (hF.objects _)) (.throw _) fun _ h => h.elim
  · next hsome =>
    have hpos : 0 < selected.length := List.length_pos_iff.2 (by simpa using hsome)
    have hdie : Does E F (roll ("1d" ++ toString selected.length) Dict.empty) := fun s =>
      have hroll := does_roll hE ("1d" ++ toString selected.length) Dict.empty s
      ⟨hroll.1, fun failure h => (hroll.2 failure h).elim fun dice hfailure =>
        hF.misrolls _ dice failure hpos hfew hfailure _⟩
    cases appliesTo with
    | each => exact .bind (.pure _) fun _ => hforked _
    | random => exact .bind hdie fun _ => .bind (.pure _) fun _ => hforked _

theorem does_useQueue (hE : v.Uses E) (hF : v.Fails F) (used queue : List String) :
    Does E F (v.useQueue used queue) := by
  induction queue generalizing used with
  | nil => exact .pure _
  | cons reference rest ih =>
    unfold useQueue
    intro s
    refine .bind_of (does_actor hF s) fun actor s' hactor => ?_
    obtain ⟨hread, rfl⟩ := of_run_actor hactor
    split
    · exact Does.throw (hF.objects _) s'
    · next item hitem =>
      have hrunItem : DoesAt E F s' (v.runItem actor item) :=
        ⟨hE.uses s' actor reference item hread hitem,
          fun failure h => hF.unused actor item s'.world failure h _⟩
      refine .bind hrunItem fun use => ?_
      cases use with
      | used _ => exact ih _
      | pending => exact .pure _

-- Items that cannot be resolved are a precondition that is not met.
theorem resolveItems_error {actor : Entity} {source : UseSource} {failure : Failure}
    (h : v.resolveItems actor source = .error failure) :
    ∃ message, failure = v.precondition message := by
  cases source with
  | item reference =>
    simp only [resolveItems] at h
    split at h
    · cases h
    · exact ⟨_, (Except.error.inj h).symm⟩
  | slot slot policy =>
    simp only [resolveItems] at h
    split at h
    · exact ⟨_, (Except.error.inj h).symm⟩
    · split at h
      all_goals
        split at h
        · exact ⟨_, (Except.error.inj h).symm⟩
        · cases h

theorem does_use (hE : v.Uses E) (hF : v.Fails F) (source : UseSource) :
    Does E F (v.use source) := by
  unfold use
  refine .bind (does_actor hF) fun actor => ?_
  split
  · exact does_useQueue hE hF _ _
  · next failure hfailure =>
    obtain ⟨message, rfl⟩ := resolveItems_error hfailure
    exact .throw (hF.objects message)

-- Only the item that was waited for can be acknowledged.
theorem does_useRest (hE : v.Uses E) (hF : v.Fails F)
    (hrejected : ∀ message s, F s (v.rejected message)) (answer : Answer) :
    Does E F (v.useRest answer) := by
  unfold useRest
  split
  · exact .get_bind fun s => does_useQueue hE hF _ _ s
  · exact .throw (hrejected _)

theorem does_createResource (hE : v.Pools E) (hF : v.Fails F) {name maximum : String}
    {negativeAllowed : Bool} {reset : ResetTrigger}
    (hkind : v.op.kind = .createResource name maximum negativeAllowed reset)
    (htexts : ∀ text ∈ (OperationKind.createResource name maximum negativeAllowed reset).formulas,
      v.Reads text) : Does E F (v.createResource name maximum negativeAllowed reset) := by
  unfold createResource
  refine .get_bind fun s => ?_
  split
  · exact Does.pure _ s
  · next hnone =>
    refine .bind_of (does_actor hF s) fun actor s₁ hactor => .get_bind ?_
    have hmaximum := htexts maximum (List.mem_singleton_self _)
    refine .bind_of (does_evaluate hE.toAsides hF hmaximum _ s₁) fun e s₂ hevaluate => ?_
    -- Neither the actor nor the formula makes a pool, so there is still none.
    have hfirst : s₁.ledger = s.ledger :=
      (does_actor (E := .sameLedger) v.failures_true).allows hactor
    have hsecond : s₂.ledger = s₁.ledger :=
      (does_evaluate v.asides_sameLedger v.failures_true hmaximum _).allows hevaluate
    rw [← hfirst, ← hsecond] at hnone
    exact ⟨hE.creates s₂ _ hkind rfl rfl hnone, fun _ h => nomatch h⟩

-- The one kind of operation that writes a record of another operation.
theorem does_consumeResource (hE : v.Pools E) (hF : v.Fails F) {resource amount : String}
    (hkind : v.op.kind = .consumeResource resource amount)
    (htexts : ∀ text ∈ (OperationKind.consumeResource resource amount).formulas, v.Reads text) :
    Does E F (v.consumeResource resource amount) := by
  unfold consumeResource
  refine .get_bind fun s => ?_
  split
  · exact .throw (hF.objects _ s)
  · refine .bind (does_actor hF s) fun actor => .get_bind fun s => ?_
    have hamount := htexts amount (List.mem_singleton_self _)
    refine .bind (does_evaluate hE.toAsides hF hamount _ s) fun e => .get_bind fun s => ?_
    split
    · exact .throw (hF.objects _ s)
    · next left ledger hconsume =>
      exact ⟨hE.consumes s resource amount _ left ledger _ hkind hconsume, fun _ h => nomatch h⟩

theorem does_recipientId (hE : v.Asides E) (hF : v.Fails F) (recipient : Recipient) :
    Does E F (v.recipientId recipient) := by
  unfold recipientId
  split
  · exact .pure _
  · refine .bind (does_targets hE hF) fun targets => ?_
    split
    · exact .pure _
    · exact .throw (hF.objects _)
    · exact .throw (hF.objects _)

theorem spend_error {actor : Entity} {components : List Component} {failure : Failure}
    (h : v.spend actor components = .error failure) : ∃ message, failure = v.precondition message := by
  obtain ⟨component, -, hcomponent⟩ := exists_of_mapM_error h
  split at hcomponent
  · exact ⟨_, (Except.error.inj hcomponent).symm⟩
  · split at hcomponent
    · exact ⟨_, (Except.error.inj hcomponent).symm⟩
    · cases hcomponent

-- To spend an item only takes from its quantity.
theorem keepsStatuses_spend {actor : Entity} {components : List Component} {changes : List Change}
    (h : v.spend actor components = .ok changes) :
    ∀ change ∈ changes, change.KeepsStatuses := by
  refine forall_of_mapM_ok (fun component change hcomponent => ?_) h
  split at hcomponent
  · cases hcomponent
  · split at hcomponent
    · cases hcomponent
    · cases hcomponent
      trivial

theorem does_spendOrThrow (hF : v.Fails F) (actor : Entity) (components : List Component) :
    Does E F (v.spendOrThrow actor components) := by
  unfold spendOrThrow
  split
  · exact .pure _
  · next failure hfailure =>
    obtain ⟨message, rfl⟩ := spend_error hfailure
    exact .throw (hF.objects message)

theorem yields_spendOrThrow (actor : Entity) (components : List Component) :
    Yields (fun changes => ∀ change ∈ changes, change.KeepsStatuses)
      (v.spendOrThrow actor components) := by
  unfold spendOrThrow
  split
  · next hspend => exact .pure (keepsStatuses_spend hspend)
  · exact .throw _

theorem restorePool_error {target : Entity} {pool : String} {amount : Binary64}
    {failure : Failure} (h : v.restorePool target pool amount = .error failure) :
    ∃ message, failure = v.precondition message := by
  unfold restorePool at h
  split at h
  · exact ⟨_, (Except.error.inj h).symm⟩
  · cases h

theorem does_restore (hE : v.Updates E) (hF : v.Fails F) (actor : Entity) (recipient : String)
    (pools : List (String × Binary64)) {components : List Change}
    (hcomponents : ∀ change ∈ components, change.KeepsStatuses) :
    Does E F (v.restore actor recipient pools components) := by
  unfold restore
  extract_lets rest
  have hrest : ∀ target, Does E F (rest target) := by
    intro target
    simp only [rest]
    split
    · next failure hfailure =>
      obtain ⟨pool, -, hpool⟩ := exists_of_mapM_error hfailure
      obtain ⟨message, rfl⟩ := restorePool_error hpool
      exact .throw (hF.objects message)
    · next restored _ =>
      have hrestored : ∀ change ∈ restored.map fun r =>
          Change.set (r.resource ++ ".value") (.ofNumber r.after), change.KeepsStatuses := by
        simp [Change.KeepsStatuses]
      split
      · exact .bind (does_update hE hF _ (List.forall_mem_append.2 ⟨hrestored, hcomponents⟩))
          fun _ => .pure _
      · refine .bind (does_update hE hF _ hrestored) fun _ => ?_
        split
        · exact .bind (does_update hE hF _ hcomponents) fun _ => .pure _
        · exact .pure _
  split
  · exact .bind (.pure _) fun _ => hrest _
  · exact .bind (does_entity hF _) fun _ => hrest _

theorem does_heal (hE : v.Updates E) (hF : v.Fails F) {formula : String}
    {resource : Option String} {recipient : Recipient} {components : List Component}
    (htexts : ∀ text ∈ (OperationKind.heal formula resource recipient components).formulas,
      v.Reads text) : Does E F (v.heal formula resource recipient components) := by
  unfold heal
  refine .bind (does_actor hF) fun actor => ?_
  refine .bind (does_recipientId hE.toAsides hF _) fun recipient => ?_
  refine .bind_yields (does_spendOrThrow hF _ _) (yields_spendOrThrow _ _) fun spent hspent =>
    .get_bind fun s => ?_
  have hformula := htexts formula (List.mem_singleton_self _)
  refine .bind (does_evaluate hE.toAsides hF hformula _ s) fun e => ?_
  refine .bind (does_restore hE hF _ _ _ hspent) fun restored => ?_
  exact .bind (does_announce hE.toAsides _ _) fun _ => .pure _

theorem does_consumption (hE : v.Updates E) (hF : v.Fails F) {restores : List Restore}
    {components : List Component} {recipient : Recipient}
    (htexts : ∀ text ∈ (OperationKind.consumption restores components recipient).formulas,
      v.Reads text) : Does E F (v.consumption restores components recipient) := by
  unfold consumption
  refine .bind (does_actor hF) fun actor => ?_
  refine .bind (does_recipientId hE.toAsides hF _) fun recipient => ?_
  refine .bind_yields (does_spendOrThrow hF _ _) (yields_spendOrThrow _ _) fun spent hspent =>
    .get_bind fun s => ?_
  refine .bind (Does.mapM (fun r hr => ?_) s) fun pools => ?_
  · have hformula := htexts _ (List.mem_map_of_mem hr)
    exact .bind (does_evaluate hE.toAsides hF hformula _) fun _ => .pure _
  · refine .bind (does_restore hE hF _ _ _ hspent) fun restored => ?_
    exact .bind (does_announce hE.toAsides _ _) fun _ => .pure _

theorem does_setFlag (hE : v.Updates E) (hF : v.Fails F) {key value : String}
    (htexts : ∀ text ∈ (OperationKind.setFlag key value).formulas, v.Reads text) :
    Does E F (v.setFlag key value) := by
  unfold setFlag
  have hvalue := htexts value (List.mem_singleton_self _)
  refine .bind (does_actor hF) fun actor => .bind (does_substitute hF hvalue) fun raw => ?_
  exact .bind (does_update hE hF _ (List.forall_mem_singleton.2 trivial)) fun _ => .pure _

theorem does_travel (hE : v.Asides E) (hF : v.Fails F) {modifier : String}
    (htexts : ∀ text ∈ (OperationKind.travel modifier).formulas, v.Reads text) :
    Does E F (v.travel modifier) := by
  unfold travel
  refine .bind (does_actor hF) fun actor => ?_
  extract_lets path rest
  have hrest : ∀ speed, Does E F (rest speed) := by
    intro speed
    have hmodifier := htexts modifier (List.mem_singleton_self _)
    refine .get_bind fun s => .bind (does_evaluate hE hF hmodifier _ s) fun e => ?_
    exact .bind (does_announce hE _ _) fun _ => .pure _
  cases actor.number? path with
  | some speed => exact .bind (.pure _) fun _ => hrest _
  | none => exact .bind (does_announce hE _ _) fun _ => .bind (.pure _) fun _ => hrest _

theorem does_message (hE : v.Asides E) (hF : v.Fails F) {text : String}
    (htexts : ∀ t ∈ (OperationKind.message text).formulas, v.Reads t) :
    Does E F (v.message text) :=
  .bind (does_substitute hF (htexts text (List.mem_singleton_self _))) fun _ =>
    .bind (does_announce hE _ _) fun _ => .pure _

theorem askOperation_error {operations : List String} {title : Option String}
    {failure : Failure} (h : v.askOperation operations title = .error failure) :
    ∃ message, failure = v.precondition message := by
  simp only [askOperation] at h
  split at h
  · exact ⟨_, (Except.error.inj h).symm⟩
  · cases h

theorem askOption_error {options : List OptionEntry} {title : Option String} {failure : Failure}
    (h : v.askOption options title = .error failure) :
    ∃ message, failure = v.precondition message := by
  simp only [askOption] at h
  split at h
  · exact ⟨_, (Except.error.inj h).symm⟩
  · cases h

-- All kinds of operations but those that update entities, other than by the use of items, need no
-- more than this.
theorem doesAt_begin (hpools : v.Pools E) (huses : v.Uses E) (hF : v.Fails F) {s : Stage}
    (hupdates : v.op.kind.UpdatesEntities → DoesAt E F s v.begin) : DoesAt E F s v.begin := by
  by_cases hupdating : v.op.kind.UpdatesEntities
  · exact hupdates hupdating
  have hE := hpools.toAsides
  have htexts : ∀ text ∈ v.op.kind.formulas, v.Reads text := fun _ => reads_of_kind
  cases hkind : v.op.kind <;> rw [hkind] at hupdating htexts <;> simp only [begin, hkind]
  case attack | heal | consumption | setFlag => exact absurd trivial hupdating
  case check => exact does_check hE hF htexts s
  case test => exact does_test hE hF htexts s
  case condition => exact does_condition hF htexts s
  case target => exact does_target hE hF _ s
  case use => exact does_use huses hF _ s
  case createResource => exact does_createResource hpools hF hkind htexts s
  case consumeResource => exact does_consumeResource hpools hF hkind htexts s
  case «variable» => exact Does.pure _ s
  case travel => exact does_travel hE hF htexts s
  case selectOperation =>
    refine does_lift (fun failure h => ?_) s
    obtain ⟨message, rfl⟩ := askOperation_error h
    exact hF.objects message
  case selectOption =>
    refine does_lift (fun failure h => ?_) s
    obtain ⟨message, rfl⟩ := askOption_error h
    exact hF.objects message
  case message => exact does_message hE hF htexts s

theorem does_begin (hE : v.Changes E) (hF : v.Fails F) : Does E F v.begin := by
  refine fun s => doesAt_begin hE.toPools hE.toUses hF fun hupdating => ?_
  have htexts : ∀ text ∈ v.op.kind.formulas, v.Reads text := fun _ => reads_of_kind
  cases hkind : v.op.kind <;> rw [hkind] at hupdating htexts <;> simp only [begin, hkind]
  case attack => exact does_attack hE.toUpdates hF htexts s
  case heal => exact does_heal hE.toUpdates hF htexts s
  case consumption => exact does_consumption hE.toUpdates hF htexts s
  case setFlag => exact does_setFlag hE.toUpdates hF htexts s
  all_goals exact hupdating.elim

theorem acceptVariable_error {label : String} {default min max : Option Binary64}
    {answer : Answer} {failure : Failure}
    (h : v.acceptVariable label default min max answer = .error failure) :
    (∃ message, failure = v.rejected message) ∨ failure = .cancelled v.op.id := by
  unfold acceptVariable at h
  extract_lets bounded at h
  have hbounded : ∀ n, bounded n = .error failure → ∃ message, failure = v.rejected message := by
    intro n hn
    simp only [bounded] at hn
    split at hn
    · exact ⟨_, (Except.error.inj hn).symm⟩
    · split at hn
      · exact ⟨_, (Except.error.inj hn).symm⟩
      · split at hn
        · exact ⟨_, (Except.error.inj hn).symm⟩
        · cases hn
  split at h
  · exact .inl (hbounded _ h)
  · split at h
    · exact .inl (hbounded _ h)
    · exact .inl ⟨_, (Except.error.inj h).symm⟩
  · split at h
    · exact .inl (hbounded _ h)
    · exact .inl ⟨_, (Except.error.inj h).symm⟩
  · exact .inr (Except.error.inj h).symm

theorem acceptOperation_error {operations : List String} {answer : Answer} {failure : Failure}
    (h : v.acceptOperation operations answer = .error failure) :
    ∃ message, failure = v.precondition message ∨ failure = v.rejected message := by
  simp only [acceptOperation] at h
  split at h
  · exact ⟨_, .inl (Except.error.inj h).symm⟩
  · split at h
    · split at h
      · cases h
      · exact ⟨_, .inr (Except.error.inj h).symm⟩
    · exact ⟨_, .inr (Except.error.inj h).symm⟩

theorem acceptOption_error {options : List OptionEntry} {answer : Answer} {failure : Failure}
    (h : v.acceptOption options answer = .error failure) :
    ∃ message, failure = v.precondition message ∨ failure = v.rejected message := by
  simp only [acceptOption] at h
  split at h
  · exact ⟨_, .inl (Except.error.inj h).symm⟩
  · split at h
    · split at h
      · cases h
      · exact ⟨_, .inr (Except.error.inj h).symm⟩
    · exact ⟨_, .inr (Except.error.inj h).symm⟩

theorem doesAt_accept (huses : v.Uses E) (hF : v.Fails F)
    (hrejected : ∀ message s, F s (v.rejected message))
    (hcancelled : ∀ s, F s (.cancelled v.op.id)) {s : Stage} (hbegin : DoesAt E F s v.begin)
    (answer : Answer) : DoesAt E F s (v.accept answer) := by
  have hchoice : ∀ {failure : Failure},
      (∃ message, failure = v.precondition message ∨ failure = v.rejected message) →
      ∀ s, F s failure := by
    rintro _ ⟨message, rfl | rfl⟩
    · exact hF.objects message
    · exact hrejected message
  unfold accept
  split
  · exact .bind (does_useRest huses hF hrejected _ s) fun _ => .pure _
  · refine .bind (does_lift (fun failure h => ?_) s) fun _ => .pure _
    obtain ⟨message, rfl⟩ | rfl := acceptVariable_error h
    · exact hrejected message
    · exact hcancelled
  · exact does_lift (fun failure h => hchoice (acceptOperation_error h)) s
  · exact does_lift (fun failure h => hchoice (acceptOption_error h)) s
  · exact .bind hbegin fun _ => .pure _

theorem does_accept (hE : v.Changes E) (hF : v.Fails F)
    (hrejected : ∀ message s, F s (v.rejected message))
    (hcancelled : ∀ s, F s (.cancelled v.op.id)) (answer : Answer) :
    Does E F (v.accept answer) :=
  fun s => doesAt_accept hE.toUses hF hrejected hcancelled (does_begin hE hF s) answer

theorem draw_error {actor : Entity} {d : Draw} {failure : Failure}
    (h : v.draw actor d = .error failure) : ∃ message, failure = v.precondition message := by
  simp only [draw] at h
  split at h
  · exact ⟨_, (Except.error.inj h).symm⟩
  · cases h

theorem keepsStatuses_draw {actor : Entity} {d : Draw} {change : Change}
    (h : v.draw actor d = .ok change) : change.KeepsStatuses := by
  simp only [draw] at h
  split at h
  · cases h
  · cases h
    trivial

theorem does_pay (hE : v.Updates E) (hF : v.Fails F)
    (hcharged : ∀ (s : Stage) pool points breath,
      E.Allows s (s.tell (.costCharged v.op.id pool points breath))) : Does E F v.pay := by
  unfold pay
  refine .bind (does_actor hF) fun actor => .get_bind fun s => ?_
  refine .bind (does_evaluate hE.toAsides hF v.reads_actions _ s) fun actions => ?_
  refine .bind (does_evaluate hE.toAsides hF v.reads_stamina _) fun stamina => ?_
  dsimp only
  split
  · next failure hfailure =>
    obtain ⟨d, -, hd⟩ := exists_of_mapM_error hfailure
    obtain ⟨message, rfl⟩ := draw_error hd
    exact .throw (hF.objects message)
  · next changes hchanges =>
    have hkeeps : ∀ change ∈ changes, change.KeepsStatuses :=
      forall_of_mapM_ok (fun _ _ => keepsStatuses_draw) hchanges
    split
    · exact .bind (does_update hE hF _ hkeeps) fun _ => .emit fun s => hcharged s _ _ _
    · exact .emit fun s => hcharged s _ _ _

theorem does_toggle (hE : v.Toggles E) : Does E F v.toggle := by
  unfold toggle
  dsimp only
  split
  · refine .tryCatch (fun s => .bind_of (does_entity v.failures_true _ s)
      fun actor s' hactor => ?_) fun s _ _ => Does.pure _ s
    obtain ⟨hread, rfl⟩ := of_run_entity hactor
    have hupdate : DoesAt E (fun _ _ => True) s' (Act.update v.setting.keeper actor.id
        (v.op.toggles.statuses.map Change.toggleStatus)) := by
      refine .get_bind ?_
      split
      · next world hworld =>
        exact ⟨hE.toggles s' actor world hread hworld, fun _ h => nomatch h⟩
      · exact .throw trivial
    refine .bind hupdate fun _ => ?_
    split
    · exact .forM (fun status => does_announce hE.toAsides _ _) _
    · exact .pure _
  · exact .pure _

end Visit

end Tabletop
