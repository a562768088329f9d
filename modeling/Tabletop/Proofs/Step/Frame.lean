import Tabletop.Proofs.Step.Aims
import Tabletop.Proofs.Step.Components
import Tabletop.Proofs.World.Frame

-- Operations change nobody in the world but the acting entity and those they aim at, and these only
-- in some ways.
namespace Tabletop

theorem Stage.Orderly.framed {setting : Setting} {aimed : String → Prop} {ops : List Operation}
    {s t : Stage} (h : s.Orderly setting aimed)
    (hframed : s.world.Framed setting aimed ops t.world) (haims : t.records.Aims aimed) :
    t.Orderly setting aimed where
  keyed := hframed.keyed h.keyed
  distinct next hnext := by
    cases he : Dict.find? s.world setting.actor with
    | none =>
      rw [hframed.absent _ he] at hnext
      cases hnext
    | some e =>
      obtain ⟨found, hfound, hacts⟩ := hframed.own e he
      obtain rfl : found = next := Option.some.inj (hfound.symm.trans hnext)
      rw [hacts.map_id]
      exact h.distinct e he
  aims := haims

-- The world is changed within the frame of some operations, as long as all was in order.
def Effect.framing (setting : Setting) (aimed : String → Prop) (ops : List Operation) : Effect where
  Allows s t := s.Orderly setting aimed →
    t.records.Aims aimed ∧ s.world.Framed setting aimed ops t.world
  refl _ h := ⟨h.aims, .refl _⟩
  trans h h' hs := by
    obtain ⟨haims, hframed⟩ := h hs
    obtain ⟨haims', hframed'⟩ := h' (hs.framed hframed haims)
    exact ⟨haims', hframed.trans hframed'⟩

namespace Visit

open Act

variable {v : Visit} {aimed : String → Prop} {s s' : Stage}

-- What is done where all is in order is all that matters.
theorem doesAt_framing {ops : List Operation} {a : Act α}
    (h : s.Orderly v.setting aimed →
      DoesAt (.framing v.setting aimed ops) (fun _ _ => True) s a) :
    DoesAt (.framing v.setting aimed ops) (fun _ _ => True) s a :=
  ⟨fun hs => (h hs).1 hs, fun _ _ => trivial⟩

theorem framing_of_asides (h : (Effect.asides v.op.id).Allows s s') :
    (Effect.framing v.setting aimed [v.op]).Allows s s' := by
  obtain ⟨hrecords, -, hworld, -⟩ := h
  intro hs
  rw [hrecords, hworld]
  exact ⟨hs.aims, .refl _⟩

theorem asides_framing (v : Visit) (aimed : String → Prop) :
    v.Asides (.framing v.setting aimed [v.op]) where
  tells s e he hpool := framing_of_asides (v.asides_asides.tells s e he hpool)
  rolls s dice := framing_of_asides (v.asides_asides.rolls s dice)

theorem pools_framing (v : Visit) (aimed : String → Prop) :
    v.Pools (.framing v.setting aimed [v.op]) where
  toAsides := v.asides_framing aimed
  creates _ _ _ _ _ _ hs := ⟨hs.aims, .refl _⟩
  consumes _ resource _ _ _ _ _ _ _ hs :=
    ⟨(Records.lasting_aims aimed).setValue hs.aims resource _, .refl _⟩

-- What the acting entity does to itself, told by changes of flags and of the stock of items.
theorem framing_own (hv : v.setting.Usual aimed) {changes : List Change} {world : World}
    (h : s.world.update v.setting.keeper v.setting.actor changes = .ok world)
    (hflags : ∀ w ∈ changes.filterMap Change.flag?, w.1 ∈ v.op.flags)
    (hstocks : ∀ e, Dict.find? s.world v.setting.actor = some e → (e.items.map Item.id).Nodup →
      ∀ w ∈ changes.filterMap Change.stock?, ∀ i ∈ e.items, i.id = w.1 → w.2 ≤ i.quantity) :
    (Effect.framing v.setting aimed [v.op]).Allows s { s with world } := by
  intro hs
  refine ⟨hs.aims, .of_own hv.derive h fun e next he hnext => ?_⟩
  have hitems := hs.distinct e he
  refine Entity.acts_of_applyAll hitems hnext (fun w hw => ?_) (hstocks e he hitems)
  simpa using hflags w hw

theorem uses_framing (hv : v.setting.Usual aimed) :
    v.Uses (.framing v.setting aimed [v.op]) where
  uses s actor reference item hread hitem hs := by
    rw [hv.useItem, ItemRoutine.consume]
    split
    · exact ⟨hs.aims, .refl _⟩
    · split
      · exact ⟨hs.aims, .refl _⟩
      · split
        · next world hworld =>
          rw [hs.actor_id hread] at hworld
          refine framing_own hv hworld (List.forall_mem_nil _) (fun e he hitems => ?_) hs
          obtain rfl : actor = e := Option.some.inj ((World.of_read hread).symm.trans he)
          refine List.forall_mem_singleton.2 fun i hi hid => ?_
          rw [Entity.eq_of_id hitems hi (Entity.mem_of_item? hitem) hid]
          exact Nat.sub_le _ _
        · exact ⟨hs.aims, .refl _⟩

theorem doesAt_attack_framing (hv : v.setting.Usual aimed) {damages : List Damage} {apply : Bool}
    (hkind : v.op.kind = .attack damages apply)
    (htexts : ∀ text ∈ (OperationKind.attack damages apply).formulas, v.Reads text) :
    DoesAt (.framing v.setting aimed [v.op]) (fun _ _ => True) s (v.attack damages apply) := by
  refine doesAt_framing fun hs => ?_
  refine doesAt_attack (v.asides_framing aimed) v.failures_true htexts fun targets s₁ htargets => ?_
  intro id hid s₂ value world hworld hs₂
  obtain ⟨t, ht, rfl⟩ := List.mem_map.1 hid
  have hwrites : ∀ w ∈ [(v.setting.rules.paths.hp ++ ".value", value)],
      ∃ pool ∈ [v.op].flatMap (Operation.pools v.setting.rules.paths), w.1 = pool ++ ".value" :=
    List.forall_mem_singleton.2
      ⟨v.setting.rules.paths.hp, by simp [Operation.pools, hkind], rfl⟩
  exact ⟨hs₂.aims, .of_writes hv.derive (aimed_targets hv hs htargets t ht) hwrites hworld⟩

theorem doesAt_setFlag_framing (hv : v.setting.Usual aimed) {key value : String}
    (hkind : v.op.kind = .setFlag key value)
    (htexts : ∀ text ∈ (OperationKind.setFlag key value).formulas, v.Reads text) :
    DoesAt (.framing v.setting aimed [v.op]) (fun _ _ => True) s (v.setFlag key value) := by
  refine doesAt_framing fun hs => ?_
  unfold setFlag
  have hvalue := htexts value (List.mem_singleton_self _)
  refine .bind_of (does_actor v.failures_true s) fun actor s₁ hactor => ?_
  obtain ⟨hread, rfl⟩ := of_run_actor hactor
  rw [hs.actor_id hread]
  refine .bind (does_substitute v.failures_true hvalue s₁) fun raw => ?_
  refine .bind (.get_bind fun s₂ => ?_) fun _ => .pure _
  split
  · next world hworld =>
    refine ⟨framing_own hv hworld (List.forall_mem_singleton.2 ?_) fun _ _ _ => List.forall_mem_nil _,
      fun _ _ => trivial⟩
    simp [Operation.flags, hkind]
  · exact .throw trivial

/-! What restoring changes -/

theorem stocks_of_spends {actor : Entity} {components : List Component} {spent : List Change}
    (hitems : (actor.items.map Item.id).Nodup)
    (h : List.Forall₂ (Component.Spends actor) components spent) :
    ∀ w ∈ spent.filterMap Change.stock?, ∀ i ∈ actor.items, i.id = w.1 → w.2 ≤ i.quantity := by
  intro w hw i hi hid
  obtain ⟨change, hchange, hstock⟩ := List.mem_filterMap.1 hw
  obtain ⟨c, -, hspends⟩ := exists_of_forall₂ h change hchange
  obtain ⟨j, hj, -, rfl⟩ := hspends.covered
  cases hstock
  rw [Entity.eq_of_id hitems hi (Entity.mem_of_item? hj) hid]
  exact Nat.sub_le _ _

theorem framing_restoring (hv : v.setting.Usual aimed) {actor : Entity} {recipient : String}
    {pools : List (String × Binary64)} {components : List Component} {spent : List Change}
    {result : Except Failure (List Restored)}
    (hread : s.world.read v.setting.keeper v.setting.actor = .ok actor)
    (hrecipient : recipient = v.setting.actor ∨ aimed recipient)
    (hpools : v.op.pools v.setting.rules.paths = pools.map Prod.fst)
    (hspends : List.Forall₂ (Component.Spends actor) components spent)
    (h : v.Restoring actor recipient pools spent s (result, s')) :
    (Effect.framing v.setting aimed [v.op]).Allows s s' := by
  intro hs
  have hid := hs.actor_id hread
  have hactor := World.of_read hread
  obtain ⟨-, hflags, -⟩ := Entity.only_stocks hspends
  have hwrites : ∀ {target : Entity} {restored : List Restored},
      v.restoreAll target pools = .ok restored → ∀ w ∈ risen restored,
        ∃ pool ∈ [v.op].flatMap (Operation.pools v.setting.rules.paths), w.1 = pool ++ ".value" := by
    intro target restored hrestored w hw
    obtain ⟨r, hr, rfl⟩ := List.mem_map.1 hw
    refine ⟨r.resource, ?_, rfl⟩
    simpa [hpools, ← resources_of_restoreAll hrestored] using ⟨r, hr, rfl⟩
  have hspent : ∀ {world world' : World}, Dict.find? world v.setting.actor = some actor →
      world.update v.setting.keeper actor.id spent = .ok world' →
      world.Framed v.setting aimed [v.op] world' := by
    intro world world' hfound hworld
    rw [hid] at hworld
    refine .of_own hv.derive hworld fun e next he hnext => ?_
    obtain rfl : actor = e := Option.some.inj (hfound.symm.trans he)
    exact Entity.acts_of_applyAll (hs.distinct _ hactor) hnext (by simp [hflags])
      (stocks_of_spends (hs.distinct _ hactor) hspends)
  cases h with
  | refused => exact ⟨hs.aims, .refl _⟩
  | unspent failure hother hfound hrestored hworld =>
    rw [map_change] at hworld
    have haimed := hrecipient.resolve_left (hid ▸ hother)
    exact ⟨hs.aims, .of_writes hv.derive haimed (hwrites hrestored) hworld⟩
  | own hown hrestored hworld =>
    refine framing_own hv (hid ▸ hworld) ?_ (fun e he hitems => ?_) hs
    · simp [hflags, Restored.change, Change.flag?]
    · obtain rfl : actor = e := Option.some.inj (hactor.symm.trans he)
      rw [List.filterMap_append, stocks_of_restored, List.nil_append]
      exact stocks_of_spends hitems hspends
  | other hother hfound hrestored hbetween hworld =>
    rw [map_change] at hbetween
    have haimed := hrecipient.resolve_left (hid ▸ hother)
    have hfirst : s.world.Framed v.setting aimed [v.op] _ :=
      .of_writes hv.derive haimed (hwrites hrestored) hbetween
    refine ⟨hs.aims, ?_⟩
    split at hworld
    · exact hworld ▸ hfirst
    · have hkept := (World.find?_update hbetween (hid ▸ hother.symm)).trans hactor
      exact hfirst.trans (hspent hkept hworld)

theorem pools_of_mend {m : Mend} (h : v.op.kind.mend? v.setting.rules.paths = some m) :
    v.op.pools v.setting.rules.paths = m.pools := by
  unfold Operation.pools
  cases hkind : v.op.kind <;> rw [hkind] at h <;> cases h <;> rfl

theorem framing_mending (hv : v.setting.Usual aimed) {m : Mend} {result : Except Failure Outcome}
    (hkind : v.op.kind.mend? v.setting.rules.paths = some m) (h : v.Mending m s (result, s')) :
    (Effect.framing v.setting aimed [v.op]).Allows s s' := by
  intro hs
  have hrestores : ∀ {actor recipient pools spent s₁ result s₂},
      v.Prepares m s actor recipient pools spent s₁ →
      v.Restoring actor recipient pools spent s₁ (result, s₂) →
      (Effect.framing v.setting aimed [v.op]).Allows s s₂ := by
    intro actor recipient pools spent s₁ result s₂ hprepared hrestoring
    obtain ⟨s₃, hrecipient⟩ := hprepared.recipient
    have hread := hprepared.read
    rw [← hprepared.asides.2.2.1] at hread
    exact (Effect.framing v.setting aimed [v.op]).trans (framing_of_asides hprepared.asides)
      (framing_restoring hv hread (aimed_recipientId hv hs hrecipient)
        ((pools_of_mend hkind).trans hprepared.pools.symm) (spends_of_spend hprepared.spend)
        hrestoring)
  cases h with
  | refused hasides => exact framing_of_asides hasides hs
  | failed hprepared hrestoring => exact hrestores hprepared hrestoring hs
  | mended hprepared hrestoring hasides =>
    exact (Effect.framing v.setting aimed [v.op]).trans (hrestores hprepared hrestoring)
      (framing_of_asides hasides) hs

-- All kinds of operations keep to the frame.
theorem does_begin_framing (hv : v.setting.Usual aimed) :
    Does (.framing v.setting aimed [v.op]) (fun _ _ => True) v.begin := by
  intro s
  refine doesAt_begin (v.pools_framing aimed) (uses_framing hv) v.failures_true fun hupdates => ?_
  have htexts : ∀ text ∈ v.op.kind.formulas, v.Reads text := fun _ => reads_of_kind
  have hmends : ∀ m, v.op.kind.mend? v.setting.rules.paths = some m →
      DoesAt (.framing v.setting aimed [v.op]) (fun _ _ => True) s v.begin :=
    fun m hmend => ⟨framing_mending hv hmend (mending hmend s), fun _ _ => trivial⟩
  cases hkind : v.op.kind with
  | attack =>
    simp only [begin, hkind]
    exact doesAt_attack_framing hv hkind (hkind ▸ htexts)
  | heal | consumption => exact hmends _ (by rw [hkind]; rfl)
  | setFlag =>
    simp only [begin, hkind]
    exact doesAt_setFlag_framing hv hkind (hkind ▸ htexts)
  | _ => exact (hkind ▸ hupdates :).elim

end Visit

end Tabletop
