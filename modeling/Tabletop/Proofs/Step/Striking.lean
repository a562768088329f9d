import Tabletop.Proofs.Binary64.Rounding
import Tabletop.Proofs.Entity
import Tabletop.Proofs.Json.Path
import Tabletop.Proofs.Step.Restoring
import Tabletop.Proofs.World

-- What an attack that applies its damage comes to. Every entry is rolled before the first blow falls,
-- and every blow meets its target as the last one left it. Blows against others do not matter to
-- anybody, so that all that becomes of an entity is told by the blows against it.
namespace Tabletop

namespace Visit

open Act

variable {v : Visit} {ds : List DamageDealt} {d : DamageDealt} {s s' : Stage}

-- Where the hit points are found.
def hpPath (v : Visit) : String := v.setting.rules.paths.hp ++ ".value"

theorem hpPath_ne_empty (v : Visit) : v.hpPath ≠ "" := Path.value_ne_empty _

def armor (v : Visit) (e : Entity) : Binary64 := (e.number? v.setting.rules.paths.armor).getD 0

-- The armor that takes its share of a blow.
def armorAgainst (v : Visit) (e : Entity) (d : DamageDealt) : Binary64 :=
  if d.penetrate then 0 else v.armor e

-- What a blow makes of whom it strikes.
def hurt (v : Visit) (e : Entity) (d : DamageDealt) : Entity :=
  match e.number? v.hpPath with
  | none => e
  | some hp =>
    let left := hpAfter d hp (v.armorAgainst e d)
    v.setting.keeper.derive { e with system := e.system.set v.hpPath (.ofNumber left) }

-- The blows against somebody, in order.
def against (ds : List DamageDealt) (id : String) : List DamageDealt :=
  ds.filter fun d => decide (d.target = some id)

-- Whether blows fell one after another, and nothing else happened that can be told from anything but
-- the events.
structure Beaten (v : Visit) (ds : List DamageDealt) (s s' : Stage) : Prop where
  records : s'.records = s.records
  ledger : s'.ledger = s.ledger
  dice : s'.dice = s.dice
  world : ∀ id, Dict.find? s'.world id =
    (Dict.find? s.world id).map fun e => (against ds id).foldl v.hurt e

namespace Beaten

theorem of_same (hrecords : s'.records = s.records) (hledger : s'.ledger = s.ledger)
    (hdice : s'.dice = s.dice) (hworld : s'.world = s.world) : v.Beaten [] s s' where
  records := hrecords
  ledger := hledger
  dice := hdice
  world id := by
    rw [hworld]
    exact Option.map_id'.symm

theorem append {more : List DamageDealt} {s'' : Stage} (h : v.Beaten ds s s')
    (h' : v.Beaten more s' s'') : v.Beaten (ds ++ more) s s'' where
  records := h'.records.trans h.records
  ledger := h'.ledger.trans h.ledger
  dice := h'.dice.trans h.dice
  world id := by
    rw [h'.world, h.world, Option.map_map]
    simp only [against, List.filter_append, List.foldl_append]
    rfl

end Beaten

-- A blow against somebody, which only becomes of whom it strikes.
theorem beaten_of_hurt {target : String} {e : Entity} {world : World}
    (htarget : d.target = some target) (hfound : Dict.find? s.world target = some e)
    (hstruck : Dict.find? world target = some (v.hurt e d))
    (hothers : ∀ id, id ≠ target → Dict.find? world id = Dict.find? s.world id) (events : List Event) :
    v.Beaten [d] s { s with world, events } where
  records := rfl
  ledger := rfl
  dice := rfl
  world id := by
    have hagainst : against [d] id = if id = target then [d] else [] := by
      by_cases hid : id = target
      · simp [against, htarget, hid]
      · simp [against, htarget, hid, Ne.symm hid]
    dsimp only
    rw [hagainst]
    by_cases hid : id = target
    · subst hid
      rw [if_pos rfl, hstruck, hfound]
      rfl
    · rw [if_neg hid, hothers id hid]
      exact Option.map_id'.symm

theorem applyDamage_cases (v : Visit) (d : DamageDealt) {target : String}
    (htarget : d.target = some target) (s : Stage) :
    (∃ failure, (v.applyDamage d target).run s = (.error failure, s)) ∨
      ∃ s', (v.applyDamage d target).run s = (.ok (), s') ∧ v.Beaten [d] s s' := by
  rcases v.entity_cases target s with ⟨failure, hentity⟩ | ⟨e, hread, hentity⟩
  · refine .inl ⟨failure, ?_⟩
    rw [applyDamage, run_bind, hentity]
  have hfound := World.of_read hread
  have hrun : (v.applyDamage d target).run s = ExceptT.run (match e.number? v.hpPath with
      | none => announce .warning (e.name ++ " has no hit points to damage")
      | some hp => update v.setting.keeper target
        [.set v.hpPath (.ofNumber (hpAfter d hp (v.armorAgainst e d)))]) s := by
    rw [applyDamage, run_bind, hentity]
    rfl
  rw [hrun]
  cases hhp : e.number? v.hpPath with
  | none =>
    have hhurt : v.hurt e d = e := by rw [hurt, hhp]
    refine .inr ⟨_, rfl, ?_⟩
    exact beaten_of_hurt htarget hfound (hhurt.symm ▸ hfound) (fun _ _ => rfl) _
  | some hp =>
    dsimp only
    generalize hchange : Change.set v.hpPath (.ofNumber (hpAfter d hp (v.armorAgainst e d))) = change
    rcases update_cases v.setting.keeper target [change] s with
      ⟨failure, hupdate⟩ | ⟨world, hworld, hupdate⟩
    · exact .inl ⟨failure, hupdate⟩
    · refine .inr ⟨_, hupdate, ?_⟩
      obtain ⟨e', next, hfound', hnext, rfl⟩ := World.of_update hworld
      obtain rfl : e = e' := Option.some.inj (hfound.symm.trans hfound')
      subst hchange
      cases hnext
      refine beaten_of_hurt htarget hfound ?_ (fun id hid => World.find?_update hworld hid) s.events
      rw [Dict.find?_insert, if_pos rfl, hurt, hhp]

/-! An attack, in its steps -/

-- A single blow, which is told of before it falls.
def strike (v : Visit) (d : DamageDealt) : Act Unit := do
  emit (.damageDealt v.op.id d)
  match d.target with
  | some target => v.applyDamage d target
  | none => pure ()

-- Every entry is rolled once.
def rollDamages (v : Visit) (damages : List Damage) (data : RollData) : Act (List DamageRoll) :=
  damages.mapM fun damage => do
    let e ← v.evaluate damage.formula data
    return DamageRoll.mk damage e.total.positivePart e.formula

-- The blows of an attack: every roll against every target, or against nobody.
def blows (rolls : List DamageRoll) (targets : List Snapshot) : List DamageDealt :=
  rolls.flatMap fun r => r.dealt (if targets.isEmpty then [none] else targets.map fun t => some t.id)

-- A roll against somebody.
def DamageRoll.blow (r : DamageRoll) (target : Option String) : DamageDealt :=
  ⟨target, r.damage.damageType, r.amount, r.damage.penetrate, r.damage.nonLethal⟩

theorem against_dealt (r : DamageRoll) (targets : List Snapshot) (id : String) :
    against (r.dealt (targets.map fun t => some t.id)) id =
      List.replicate ((targets.map Snapshot.id).count id) (r.blow (some id)) := by
  induction targets with
  | nil => rfl
  | cons t targets ih =>
    by_cases ht : t.id = id
    · have hfirst : against (r.dealt ((t :: targets).map fun t => some t.id)) id =
          r.blow (some id) :: against (r.dealt (targets.map fun t => some t.id)) id := by
        simp [against, DamageRoll.dealt, DamageRoll.blow, ht]
      rw [hfirst, ih, List.map_cons, ht, List.count_cons_self, List.replicate_succ]
    · have hfirst : against (r.dealt ((t :: targets).map fun t => some t.id)) id =
          against (r.dealt (targets.map fun t => some t.id)) id := by
        simp [against, DamageRoll.dealt, ht]
      rw [hfirst, ih, List.map_cons, List.count_cons_of_ne ht]

-- Every roll falls on somebody as often as the targets name them.
theorem against_blows (rolls : List DamageRoll) (targets : List Snapshot) (id : String) :
    against (blows rolls targets) id = rolls.flatMap fun r =>
      List.replicate ((targets.map Snapshot.id).count id) (r.blow (some id)) := by
  rw [against, blows, List.filter_flatMap]
  refine List.flatMap_congr fun r _ => ?_
  cases targets with
  | nil => rfl
  | cons t targets => exact against_dealt r (t :: targets) id

theorem strike_cases (v : Visit) (d : DamageDealt) (s : Stage) :
    (∃ failure s', (v.strike d).run s = (.error failure, s') ∧ v.Beaten [] s s') ∨
      ∃ s', (v.strike d).run s = (.ok (), s') ∧ v.Beaten [d] s s' := by
  have htold : v.Beaten [] s (s.tell (.damageDealt v.op.id d)) := .of_same rfl rfl rfl rfl
  cases htarget : d.target with
  | none =>
    have hrun : (v.strike d).run s = (.ok (), s.tell (.damageDealt v.op.id d)) := by
      rw [strike, htarget]
      rfl
    refine .inr ⟨_, hrun, { htold with world := fun id => ?_ }⟩
    rw [htold.world]
    simp [against, htarget]
  | some target =>
    have hrun : (v.strike d).run s =
        (v.applyDamage d target).run (s.tell (.damageDealt v.op.id d)) := by
      rw [strike, htarget]
      rfl
    rw [hrun]
    rcases v.applyDamage_cases d htarget (s.tell (.damageDealt v.op.id d)) with
      ⟨failure, hfailed⟩ | ⟨s', hdone, hbeaten⟩
    · exact .inl ⟨failure, _, hfailed, htold⟩
    · exact .inr ⟨s', hdone, htold.append hbeaten⟩

-- A blow that fails ends the attack, and those before it have fallen.
theorem strikes_cases {f : DamageDealt → PUnit → Act (ForInStep PUnit)}
    (hf : ∀ d u, f d u = (do v.strike d; return .yield .unit)) (ds : List DamageDealt) (s : Stage) :
    ∃ struck s', struck <+: ds ∧ v.Beaten struck s s' ∧
      ((∃ failure, (forIn ds PUnit.unit f).run s = (.error failure, s')) ∨
        (forIn ds PUnit.unit f).run s = (.ok .unit, s') ∧ struck = ds) := by
  induction ds generalizing s with
  | nil => exact ⟨[], s, List.prefix_rfl, .of_same rfl rfl rfl rfl, .inr ⟨rfl, rfl⟩⟩
  | cons d ds ih =>
    have hcons : forIn (d :: ds) PUnit.unit f = (do v.strike d; forIn ds PUnit.unit f) := by
      rw [List.forIn_cons, hf, bind_assoc]
      rfl
    rw [hcons, run_bind]
    rcases v.strike_cases d s with ⟨failure, s', hfailed, hbeaten⟩ | ⟨s₁, hstruck, hbeaten⟩
    · rw [hfailed]
      exact ⟨[], s', List.nil_prefix, hbeaten, .inl ⟨failure, rfl⟩⟩
    · rw [hstruck]
      obtain ⟨struck, s', hpart, hrest, hrun⟩ := ih s₁
      refine ⟨d :: struck, s', List.cons_prefix_cons.2 ⟨rfl, hpart⟩, hbeaten.append hrest, ?_⟩
      exact hrun.imp_right fun ⟨hdone, hall⟩ => ⟨hdone, congrArg (d :: ·) hall⟩

-- What is read and rolled before the first blow falls: the targets, and every entry once, with an
-- amount that does not heal.
structure Rolled (v : Visit) (damages : List Damage) (s : Stage) (targets : List Snapshot)
    (rolls : List DamageRoll) (s' : Stage) : Prop where
  rolled : ∃ actor s₁, v.targets.run s = (.ok targets, s₁) ∧
    s.world.read v.setting.keeper v.setting.actor = .ok actor ∧
    (v.rollDamages damages (v.rollData actor s.records)).run s₁ = (.ok rolls, s')
  asides : (Effect.asides v.op.id).Allows s s'
  amounts : List.Forall₂ (fun damage r => r.damage = damage ∧ 0 ≤ r.amount) damages rolls

-- What comes of an attack. Where it fails, some of the blows may have fallen before.
inductive Attacking (v : Visit) (damages : List Damage) (s : Stage) :
    Except Failure Outcome × Stage → Prop where
  | refused {failure : Failure} {s' : Stage} : (Effect.asides v.op.id).Allows s s' →
    Attacking v damages s (.error failure, s')
  | broken {targets : List Snapshot} {rolls : List DamageRoll} {struck : List DamageDealt}
    {s₁ s' : Stage} {failure : Failure} : v.Rolled damages s targets rolls s₁ →
    struck <+: blows rolls targets → v.Beaten struck s₁ s' →
    Attacking v damages s (.error failure, s')
  | done {targets : List Snapshot} {rolls : List DamageRoll} {s₁ s' : Stage} {outcome : Outcome} :
    v.Rolled damages s targets rolls s₁ → v.Beaten (blows rolls targets) s₁ s' →
    outcome.value = some (.ofNumber (rolls.foldl (fun sum r => sum + r.amount) 0)) →
    Entries.find? "damages" outcome.fields =
      some (.arr ((blows rolls targets).map DamageDealt.toJson)) →
    Attacking v damages s (.ok outcome, s')

-- The blows of an attack whose entries are all rolled.
theorem Rolled.attacking {damages : List Damage} {targets : List Snapshot} {rolls : List DamageRoll}
    {s₁ : Stage} {f : DamageDealt → PUnit → Act (ForInStep PUnit)} {outcome : Outcome}
    (h : v.Rolled damages s targets rolls s₁)
    (hf : ∀ d u, f d u = (do v.strike d; return .yield .unit))
    (hvalue : outcome.value = some (.ofNumber (rolls.foldl (fun sum r => sum + r.amount) 0)))
    (hdealt : Entries.find? "damages" outcome.fields =
      some (.arr ((blows rolls targets).map DamageDealt.toJson))) :
    v.Attacking damages s
      ((do let _ ← forIn (blows rolls targets) PUnit.unit f; return outcome : Act Outcome).run s₁) := by
  rw [run_bind]
  obtain ⟨struck, s', hpart, hbeaten, ⟨failure, hstruck⟩ | ⟨hstruck, rfl⟩⟩ :=
    strikes_cases hf (blows rolls targets) s₁
  · rw [hstruck]
    exact .broken h hpart hbeaten
  · rw [hstruck]
    exact .done h hbeaten hvalue hdealt

theorem does_rollDamages {damages : List Damage} (htexts : ∀ d ∈ damages, v.Reads d.formula)
    (data : RollData) :
    Does (.asides v.op.id) (fun _ _ => True) (v.rollDamages damages data) :=
  .mapM fun d hd =>
    .bind (does_evaluate v.asides_asides v.failures_true (htexts d hd) data) fun _ => .pure _

theorem yields_rollDamages (v : Visit) (damages : List Damage) (data : RollData) :
    Yields (List.Forall₂ (fun damage r => r.damage = damage ∧ 0 ≤ r.amount) damages)
      (v.rollDamages damages data) :=
  .mapM fun _ _ => .bind fun e => .pure ⟨rfl, e.total.zero_le_positivePart⟩

theorem attacking {damages : List Damage} (hkind : v.op.kind = .attack damages true) (s : Stage) :
    v.Attacking damages s (v.begin.run s) := by
  have htexts : ∀ d ∈ damages, v.Reads d.formula := fun d hd =>
    reads_of_kind (hkind ▸ List.mem_map_of_mem hd)
  have hbegin : v.begin = v.attack damages true := by
    simp only [begin, hkind]
  rw [hbegin, attack, run_bind]
  obtain ⟨s₁, htargeted, ⟨failure, htargets⟩ | ⟨targets, htargets, -⟩⟩ :=
    (does_targets v.asides_asides v.failures_true).cases (.trivial _) s
  · rw [htargets]
    exact .refused htargeted
  rw [htargets]
  dsimp only
  split
  · exact .refused htargeted
  rw [run_bind]
  rcases v.actor_cases s₁ with ⟨failure, hactor⟩ | ⟨actor, hread, hactor⟩
  · rw [hactor]
    exact .refused htargeted
  rw [hactor]
  dsimp only
  rw [run_get_bind, run_bind]
  obtain ⟨s₂, hrolled, ⟨failure, hrolls⟩ | ⟨rolls, hrolls, hamounts⟩⟩ :=
    (does_rollDamages htexts _).cases (v.yields_rollDamages damages _) s₁
  · rw [rollDamages] at hrolls
    rw [hrolls]
    exact .refused ((Effect.asides v.op.id).trans htargeted hrolled)
  have hprepared : v.Rolled damages s targets rolls s₂ :=
    ⟨⟨actor, s₁, htargets, htargeted.2.2.1 ▸ hread, htargeted.1 ▸ hrolls⟩,
      (Effect.asides v.op.id).trans htargeted hrolled, hamounts⟩
  rw [rollDamages] at hrolls
  rw [hrolls]
  refine hprepared.attacking (fun d u => ?_) rfl rfl
  cases htarget : d.target <;> simp [strike, htarget]

end Visit

end Tabletop
