import Tabletop.Proofs.Session.Footprint
import Tabletop.Proofs.Walk.Frame

-- What a call may change in the world, told by the operations that it starts and by the targets that
-- are selected, bound or waited for.
namespace Tabletop

-- The targets that an activity holds: the one that is bound, and those of the operation that waits
-- and of the branches that are owed behind it.
def Activity.targets (a : Activity) : List Snapshot :=
  a.records.target?.toList ++
    match a.pending with
    | none => []
    | some p => p.target.toList ++ p.forks.flatMap Fork.remaining

-- Whether somebody with this id was selected or is a target that the activity holds.
def Session.Targets (setting : Setting) (s : Session) (id : String) : Prop :=
  id ∈ setting.targets ∨ id ∈ s.activity.targets.map Snapshot.id

namespace Stop

variable {aimed : String → Prop}

theorem framed_ofVisit {v : Visit} (hv : v.setting.Usual aimed) (c : Cursor) {run : Run}
    (hs : run.toStage.Orderly v.setting aimed) :
    run.world.Framed v.setting aimed ([ofVisit v c run].filterMap started?)
      (v.visit c.targetId c.selected run).2.world := by
  cases hstage : v.stage? c.targetId c.selected run with
  | none =>
    obtain ⟨-, -, hworld⟩ := Visit.visit_unstarted hstage
    rw [hworld]
    exact .refl _
  | some stage =>
    have hstarted : [ofVisit v c run].filterMap started? = [v.op] := by
      simp [started?, ofVisit, hstage]
    rw [hstarted]
    exact ((Visit.relates_framing hv c.targetId).visit c.selected run hs).2

theorem framed_ofAnswer {v : Visit} (hv : v.setting.Usual aimed) (c : Cursor) (answer : Answer)
    {run : Run} (hs : run.toStage.Orderly v.setting aimed) :
    run.world.Framed v.setting aimed ([ofAnswer v c answer run].filterMap started?)
      (Session.answered v c answer run).2.world := by
  by_cases hdismissed : answer = .dismiss
  · subst hdismissed
    exact .refl _
  · have hstarted : [ofAnswer v c answer run].filterMap started? = [v.op] := by
      simp [started?, ofAnswer, hdismissed]
    rw [hstarted]
    exact ((Visit.relates_framing hv c.targetId).answered answer run hs).2

theorem traces_framed {setting : Setting} (hsetting : setting.Usual aimed) (plan : Plan) :
    Traces setting plan fun stops s t =>
      (∀ stop ∈ stops, stop.before.toStage.Orderly setting aimed) →
      s.world.Framed setting aimed (stops.filterMap started?) t.world where
  refl _ _ := .refl _
  trans h h' hstops := by
    rw [List.filterMap_append]
    rw [List.forall_mem_append] at hstops
    exact (h hstops.1).append (h' hstops.2)
  visits op _ c run hstops :=
    framed_ofVisit (v := ⟨setting, plan, op⟩) hsetting c (hstops _ (List.mem_singleton_self _))
  answers op _ c answer run hstops :=
    framed_ofAnswer (v := ⟨setting, plan, op⟩) hsetting c answer
      (hstops _ (List.mem_singleton_self _))
  binds _ _ _ := .refl _
  frames _ _ _ _ := .refl _

end Stop

namespace Session

variable {setting : Setting} {s : Session}

theorem aims_records (setting : Setting) (s : Session) :
    s.activity.records.Aims (s.Targets setting) := by
  intro t ht
  exact .inr (List.mem_map_of_mem (List.mem_append_left _ (Option.mem_toList.2 ht)))

theorem aims_pending {p : Pending} (hp : s.activity.pending = some p) :
    (∀ t ∈ p.target, s.Targets setting t.id) ∧ p.cursor.Aims (s.Targets setting) := by
  have hheld : ∀ t ∈ p.target.toList ++ p.forks.flatMap Fork.remaining,
      s.Targets setting t.id := by
    intro t ht
    refine .inr (List.mem_map_of_mem (List.mem_append_right _ ?_))
    rw [hp]
    exact ht
  refine ⟨fun t ht => hheld t (List.mem_append_left _ (Option.mem_toList.2 ht)), fun b hb => ?_⟩
  obtain ⟨fork, hfork, howes⟩ := List.mem_flatMap.1 hb
  obtain ⟨t, ht, rfl⟩ := List.mem_map.1 howes
  exact hheld t (List.mem_append_right _ (List.mem_flatMap.2 ⟨fork, hfork, ht⟩))

theorem orderly_turn {plan : Plan} {aimed : String → Prop} (hsetting : setting.Usual aimed)
    {turn : Turn} {run : Run} (hturn : turn.Aims aimed) (hs : run.toStage.Orderly setting aimed) :
    ∀ stop ∈ turn.stops setting plan run, stop.before.toStage.Orderly setting aimed := by
  cases turn with
  | goes c => exact Run.orderly_stops hsetting hturn hs
  | ends | waits => exact List.forall_mem_nil _

-- Wherever a call comes to an operation all is in order.
theorem orderly_stops (hsetting : setting.Usual (s.Targets setting))
    (hs : s.run.toStage.Orderly setting (s.Targets setting)) (c : Call) :
    ∀ stop ∈ s.stops setting c, stop.before.toStage.Orderly setting (s.Targets setting) := by
  cases c with
  | start origin =>
    simp only [stops]
    split
    · split
      · exact List.forall_mem_nil _
      · exact Run.orderly_stops hsetting (List.forall_mem_nil _)
          ⟨hs.keyed, hs.distinct, Records.bound_bind.aims (by rintro _ ⟨⟩)⟩
    · exact List.forall_mem_nil _
  | continueFrom id =>
    simp only [stops]
    split
    · exact List.forall_mem_nil _
    · exact Run.orderly_stops hsetting (List.forall_mem_nil _) hs
  | resume token answer =>
    simp only [stops]
    split
    · exact List.forall_mem_nil _
    · next p hp =>
      split
      · exact List.forall_mem_nil _
      · split
        · exact List.forall_mem_nil _
        · next op _ =>
          obtain ⟨htarget, hcursor⟩ : _ ∧ p.cursor.Aims (s.Targets setting) := aims_pending hp
          have hbound : (s.bind p.target).run.toStage.Orderly setting (s.Targets setting) :=
            ⟨hs.keyed, hs.distinct, Records.bound_bind.aims htarget⟩
          refine List.forall_mem_cons.2 ⟨hbound, ?_⟩
          split
          · exact List.forall_mem_nil _
          · next turn run hanswered =>
            obtain ⟨hturn, hrun⟩ :=
              aims_answered (v := ⟨setting, s.activity.toPlan, op⟩) hsetting hcursor hbound hanswered
            exact orderly_turn hsetting hturn hrun

theorem framed_call (hsetting : setting.Usual (s.Targets setting))
    (hs : s.run.toStage.Orderly setting (s.Targets setting)) (c : Call) :
    s.world.Framed setting (s.Targets setting) (s.started setting c) (s.call setting c).2.world :=
  traces_call (Stop.traces_framed hsetting s.activity.toPlan) c (orderly_stops hsetting hs c)

-- Where nothing is recomputed after an update, items are used up in the usual way, entities are kept
-- under their ids, and no two items of the acting entity have one id, a call does this to the world,
-- whether it reports or fails. Nobody comes or goes. Nobody but the acting entity is changed who was
-- not selected and is no target that the activity holds. Whoever is changed without acting is the
-- same but for the values of the pools that are named by attacks, healing and consumption that the
-- call starts. The acting entity has its flags changed only under the keys of operations that it
-- starts, and of none of its items are there more than before.
theorem world_framed (hderive : ∀ e, setting.keeper.derive e = e)
    (huse : setting.useItem = ItemRoutine.consume) (hkeyed : s.world.Keyed)
    (hitems : ∀ e, Dict.find? s.world setting.actor = some e → (e.items.map Item.id).Nodup)
    (c : Call) :
    (∃ told, (s.call setting c).2.events = s.events ++ told ∧
      (told.filterMap Event.start?).map Start.operation =
        (s.started setting c).map Operation.id) ∧
    (∀ op ∈ s.started setting c, op ∈ s.activity.operations) ∧
    (∀ id, Dict.find? s.world id = none → Dict.find? (s.call setting c).2.world id = none) ∧
    (∀ id e, id ≠ setting.actor → Dict.find? s.world id = some e →
      ∃ next, Dict.find? (s.call setting c).2.world id = some next ∧
        (next ≠ e → id ∈ setting.targets ∨ id ∈ s.activity.targets.map Snapshot.id) ∧
        next = { e with system := next.system } ∧
        ∀ way,
          (∀ op ∈ s.started setting c, ∀ pool ∈ op.pools setting.rules.paths,
            Path.Apart (Path.segments (pool ++ ".value")) way) →
          next.system.follow? way = e.system.follow? way) ∧
    ∀ e, Dict.find? s.world setting.actor = some e →
      ∃ next, Dict.find? (s.call setting c).2.world setting.actor = some next ∧
        next.id = e.id ∧ next.name = e.name ∧ next.disposition = e.disposition ∧
        (∀ key, Dict.find? next.flags key ≠ Dict.find? e.flags key →
          ∃ op ∈ s.started setting c, ∃ value, op.kind = .setFlag key value) ∧
        List.Forall₂ (fun i j => j = { i with quantity := j.quantity } ∧ j.quantity ≤ i.quantity)
          e.items next.items := by
  have hsetting : setting.Usual (s.Targets setting) :=
    { derive := hderive, useItem := huse, selected _ hid := .inl hid }
  have hframed := framed_call hsetting ⟨hkeyed, hitems, s.aims_records setting⟩ c
  refine ⟨hears_started setting s c, fun _ => mem_started, hframed.absent, fun id e hid he => ?_,
    fun e he => ?_⟩
  · obtain ⟨next, hnext, hsuffers, haimed⟩ := hframed.others id e hid he
    refine ⟨next, hnext, haimed, hsuffers.same, fun way hapart => hsuffers.system way ?_⟩
    refine List.forall_mem_map.2 fun pool hpool => ?_
    obtain ⟨op, hop, hpool⟩ := List.mem_flatMap.1 hpool
    exact hapart op hop pool hpool
  · obtain ⟨next, hnext, hacts⟩ := hframed.own e he
    refine ⟨next, hnext, hacts.id, hacts.name, hacts.disposition, fun key hkey => ?_,
      hacts.items.imp fun _ _ h => ⟨h.same, h.le⟩⟩
    have hset := by_contra fun hunset => hkey (hacts.flags key hunset)
    obtain ⟨op, hop, hmem⟩ := List.mem_flatMap.1 hset
    exact ⟨op, hop, Operation.of_mem_flags hmem⟩

-- A wolf howls and bites a goat.
def hunt : Setting := { actor := "wolf", targets := ["goat"] }

def goat : Entity where
  id := "goat"
  name := "Goat"
  system := .obj [("hp", .obj [("max", .int 10), ("value", .int 10)])]

def howl : Operation := { id := "howl", kind := .setFlag "hungry" "true" }

def bite : Operation :=
  { id := "bite", priority := 1
    kind := .attack [{ formula := "3", damageType := "piercing" }] true }

def pasture : Session where
  activity := { id := "hunt", operations := [howl, bite] }
  world := World.ofList [{ id := "wolf", name := "Wolf" }, goat, { id := "sheep", name := "Sheep" }]
  dice := .highest

theorem start_pasture : ((Dict.find? (pasture.start hunt none).2.world "goat").bind fun e =>
    e.number? "hp.value") = some (.ofNat 7) := by
  have hbitten : ((Run.pass? hunt pasture.activity.toPlan [howl, bite] pasture.begun.run).map
      fun run => (Dict.find? run.world "goat").bind fun e => e.number? "hp.value") =
        some (some (.ofNat 7)) := by decide +kernel
  obtain ⟨run, hpass, hleft⟩ := Option.map_eq_some_iff.1 hbitten
  have horder : pasture.activity.toPlan.order = [howl, bite] :=
    List.mergeSort_of_pairwise (by decide)
  have hwalk : pasture.begun.run.walk hunt pasture.activity.toPlan ⟨0, none, [], false⟩ =
      (none, run) := Run.walk_of_pass? (by rw [List.drop_zero, horder, hpass])
  have herrors : pasture.activity.errors = [] :=
    Activity.errors_eq_nil (by decide +kernel) (by decide +kernel) (by decide +kernel)
      (by decide +kernel)
  rw [start_of_walk herrors hwalk]
  exact hleft

-- The goat loses hit points, though it could have as many as before, and the sheep is left alone.
theorem world_framed_pasture :
    let after := (pasture.call hunt (.start none)).2
    (∀ e, hunt.keeper.derive e = e) ∧ hunt.useItem = ItemRoutine.consume ∧ pasture.world.Keyed ∧
    (∀ e, Dict.find? pasture.world hunt.actor = some e → (e.items.map Item.id).Nodup) ∧
    (∃ next, Dict.find? after.world "goat" = some next ∧
      next.number? "hp.value" = some (.ofNat 7) ∧
      next.system.follow? ["hp", "max"] = some (.int 10)) ∧
    Dict.find? after.world "sheep" = Dict.find? pasture.world "sheep" := by
  have hderive : ∀ e, hunt.keeper.derive e = e := fun _ => rfl
  have hkeyed : pasture.world.Keyed := World.keyed_ofList _
  have hgoat : Dict.find? pasture.world "goat" = some goat := by cbv
  have hsheep : Dict.find? pasture.world "sheep" = some { id := "sheep", name := "Sheep" } := by cbv
  have hwolf : Dict.find? pasture.world "wolf" = some { id := "wolf", name := "Wolf" } := by cbv
  have hitems : ∀ e, Dict.find? pasture.world hunt.actor = some e → (e.items.map Item.id).Nodup := by
    intro e he
    cases he.symm.trans hwolf
    exact List.nodup_nil
  obtain ⟨-, hops, -, hothers, -⟩ := world_framed hderive rfl hkeyed hitems (.start none)
  refine ⟨hderive, rfl, hkeyed, hitems, ?_, ?_⟩
  · obtain ⟨next, hfound, -, -, hways⟩ := hothers "goat" _ (by decide) hgoat
    have hleft := start_pasture
    rw [show Dict.find? (pasture.start hunt none).2.world "goat" = some next from hfound] at hleft
    refine ⟨next, hfound, hleft, (hways ["hp", "max"] fun op hop pool hpool => ?_).trans rfl⟩
    obtain rfl : pool = "hp" := by
      have hmem : op = howl ∨ op = bite := by simpa [pasture] using hops op hop
      obtain rfl | rfl := hmem
      · cases hpool
      · exact List.mem_singleton.1 hpool
    exact ⟨by decide +kernel, by decide +kernel⟩
  · obtain ⟨next, hfound, haimed, -⟩ := hothers "sheep" _ (by decide) hsheep
    rw [hfound, hsheep]
    by_contra hne
    obtain htarget | htarget := haimed fun heq => hne (congrArg some heq)
    · simp [hunt] at htarget
    · cases htarget

end Session

end Tabletop
