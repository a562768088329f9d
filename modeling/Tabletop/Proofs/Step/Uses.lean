import Tabletop.Proofs.Entity
import Tabletop.Proofs.Step.Resource

-- The uses that an operation makes of items, told one by one. A queue of distinct items is served in
-- order and cut nowhere but after an item that is not done yet.
namespace Tabletop

-- A use of an item: who uses it, and in which world.
structure Use where
  actor : Entity
  item : Item
  world : World

-- Whether these are the ids of the items of the acting entity, in whatever order.
def Setting.Owns (setting : Setting) (world : World) (ids : List String) : Prop :=
  ∃ actor, world.read setting.keeper setting.actor = .ok actor ∧
    ∀ id, id ∈ actor.items.map Item.id ↔ id ∈ ids

-- Whether a use is done or goes on, and takes and gives no items.
structure Setting.Permits (setting : Setting) (use : Use) : Prop where
  answers : ∃ answer,
    (setting.useItem setting.keeper use.actor use.item use.world).1 = .ok answer
  keeps : ∀ ids, setting.Owns use.world ids →
    setting.Owns (setting.useItem setting.keeper use.actor use.item use.world).2 ids

theorem Entity.exists_item? {e : Entity} {id : String} (h : id ∈ e.items.map Item.id) :
    ∃ item, e.item? id = some item ∧ item.id = id := by
  obtain ⟨item, hitem, hid⟩ := List.mem_map.1 h
  have hsome : (e.items.find? fun i => i.id == id).isSome = true :=
    List.find?_isSome.2 ⟨item, hitem, by simp [hid]⟩
  obtain ⟨found, hfound⟩ := Option.isSome_iff_exists.1 hsome
  exact ⟨found, by simp [item?, hfound], by simpa using List.find?_some hfound⟩

namespace Visit

variable {v : Visit} {s : Stage}

-- What is left when all items were used, and when one of them is not done yet.
def spent (used : List String) : Outcome :=
  .success ("used " ++ Text.commaList used) (some (.ofNat used.length))
    [("used", .names used), ("remaining", .names [])]

def unspent (item : Item) (used rest : List String) : Outcome :=
  .suspended ⟨"Waiting for " ++ item.name ++ " to finish", .acknowledge⟩
    [("used", .names used), ("remaining", .names rest)]

-- Serves a queue with a log of the uses.
def serve (v : Visit) (used : List String) :
    List String → Stage → List Use × Except Failure Outcome × Stage
  | [], s => ([], .ok (spent used), s)
  | reference :: rest, s =>
    match v.actor.run s with
    | (.error failure, s) => ([], .error failure, s)
    | (.ok actor, s) =>
      match actor.item? reference with
      | none =>
        ([], .error (v.precondition (actor.name ++ " no longer owns '" ++ reference ++ "'")), s)
      | some item =>
        let use : Use := ⟨actor, item, s.world⟩
        match (v.runItem actor item).run s with
        | (.error failure, s) => ([use], .error failure, s)
        | (.ok .pending, s) => ([use], .ok (unspent item (used ++ [item.id]) rest), s)
        | (.ok (.used _), s) =>
          let (uses, served) := v.serve (used ++ [item.id]) rest s
          (use :: uses, served)

-- Serves what a source resolves to.
def serveSource (v : Visit) (source : UseSource) (s : Stage) :
    List Use × Except Failure Outcome × Stage :=
  match v.actor.run s with
  | (.error failure, s) => ([], .error failure, s)
  | (.ok actor, s) =>
    match v.resolveItems actor source with
    | .ok queue => v.serve [] queue s
    | .error failure => ([], .error failure, s)

-- Serves what remained after the last item that was not done.
def serveRest (v : Visit) (s : Stage) : List Use × Except Failure Outcome × Stage :=
  v.serve (recordedNames s.records v.op.id "used") (recordedNames s.records v.op.id "remaining") s

/-! Without the log, this is what the operation does. -/

theorem run_useQueue (used queue : List String) (s : Stage) :
    (v.useQueue used queue).run s = (v.serve used queue s).2 := by
  induction queue generalizing used s with
  | nil => rfl
  | cons reference rest ih =>
    rw [useQueue, serve, Act.run_bind]
    rcases v.actor.run s with ⟨result, s'⟩
    cases result with
    | error failure => rfl
    | ok actor =>
      dsimp only
      cases actor.item? reference with
      | none => rfl
      | some item =>
        dsimp only
        rw [Act.run_bind]
        rcases (v.runItem actor item).run s' with ⟨result, s''⟩
        cases result with
        | error failure => rfl
        | ok answer =>
          cases answer with
          | used value => exact ih _ _
          | pending => rfl

theorem run_use (source : UseSource) (s : Stage) :
    (v.use source).run s = (v.serveSource source s).2 := by
  rw [use, serveSource, Act.run_bind]
  rcases v.actor.run s with ⟨result, s'⟩
  cases result with
  | error failure => rfl
  | ok actor =>
    dsimp only
    cases v.resolveItems actor source with
    | error failure => rfl
    | ok queue => exact run_useQueue _ _ _

theorem run_useRest (s : Stage) : (v.useRest .acknowledge).run s = (v.serveRest s).2 :=
  run_useQueue _ _ s

/-! What becomes of a queue -/

theorem run_runItem (actor : Entity) (item : Item) (s : Stage) : (v.runItem actor item).run s =
    ((v.setting.useItem v.setting.keeper actor item s.world).1,
      { s with world := (v.setting.useItem v.setting.keeper actor item s.world).2 }) :=
  rfl

-- The items of a source are owned ones in their order.
theorem sublist_of_resolveItems {actor : Entity} {source : UseSource} {queue : List String}
    (h : v.resolveItems actor source = .ok queue) : queue.Sublist (actor.items.map Item.id) := by
  cases source with
  | item reference =>
    simp only [resolveItems] at h
    split at h
    · next item hitem =>
      cases h
      exact List.singleton_sublist.2 (List.mem_map_of_mem (Entity.mem_of_item? hitem))
    · cases h
  | slot slot policy =>
    have hslot : ((actor.itemsIn slot).map Item.id).Sublist (actor.items.map Item.id) :=
      List.Sublist.map Item.id List.filter_sublist
    cases policy with
    | single | all =>
      simp only [resolveItems] at h
      split at h
      · cases h
      · split at h <;> cases h
        exact hslot
    | upTo n =>
      simp only [resolveItems] at h
      split at h
      · cases h
      · split at h <;> cases h
        exact (List.take_sublist _ _).trans hslot

-- How a queue was served: to its end, or to an item that is not done yet.
inductive Serves (used rest : List String) : Outcome → Prop where
  | whole : rest = [] → Serves used rest (spent used)
  | part (item : Item) : Serves used rest (unspent item used rest)

-- The queue is cut in two. The first part was used, in order, and what is left says so.
theorem serve_cases {ids queue : List String} (used : List String)
    (howns : queue ≠ [] → v.setting.Owns s.world ids) (hqueue : ∀ id ∈ queue, id ∈ ids)
    (hpermits : ∀ use ∈ (v.serve used queue s).1, v.setting.Permits use) :
    ∃ done rest outcome world, queue = done ++ rest ∧
      (v.serve used queue s).1.map (fun use => use.item.id) = done ∧
      (v.serve used queue s).2 = (.ok outcome, { s with world }) ∧
      Serves (used ++ done) rest outcome ∧ (done = [] → outcome = spent used) ∧
      (rest ≠ [] → v.setting.Owns world ids) := by
  induction queue generalizing used s with
  | nil =>
    refine ⟨[], [], spent used, s.world, rfl, rfl, rfl, ?_, fun _ => rfl, fun h => absurd rfl h⟩
    simpa using .whole rfl
  | cons reference queue ih =>
    obtain ⟨actor, hread, hitems⟩ := howns (List.cons_ne_nil _ _)
    rw [List.forall_mem_cons] at hqueue
    obtain ⟨item, hitem, rfl⟩ := Entity.exists_item? ((hitems reference).2 hqueue.1)
    have hactor := run_actor (v := v) hread
    simp only [serve, hactor, hitem, run_runItem] at hpermits ⊢
    have hfirst : v.setting.Permits ⟨actor, item, s.world⟩ := hpermits _ (by split <;> simp)
    obtain ⟨answer, hanswer⟩ := hfirst.answers
    have howns := hfirst.keeps ids ⟨actor, hread, hitems⟩
    rw [hanswer] at hpermits ⊢
    generalize (v.setting.useItem v.setting.keeper actor item s.world).2 = world at hpermits howns ⊢
    cases answer with
    | pending =>
      exact ⟨[item.id], queue, _, world, rfl, rfl, rfl, .part item, by simp, fun _ => howns⟩
    | used value =>
      obtain ⟨done, rest, outcome, world', rfl, huses, hserved, hserves, -, howns'⟩ :=
        ih (s := { s with world }) (used ++ [item.id]) (fun _ => howns) hqueue.2
          fun use huse => hpermits use (List.mem_cons_of_mem _ huse)
      refine ⟨item.id :: done, rest, outcome, world', rfl, ?_, hserved, ?_, by simp, howns'⟩
      · simp [huses]
      · simpa using hserves

end Visit

end Tabletop
