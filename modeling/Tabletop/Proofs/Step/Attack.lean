import Tabletop.Proofs.Step.Wounds
import Tabletop.Proofs.World.Frame

-- An attack loses no damage. The blows fall in turn on everybody who is aimed at, and each of them is
-- taken from what the last one left, so that hit points end as if all blows against somebody were
-- taken from them one after another.
namespace Tabletop

namespace Visit

variable {v : Visit} {d : DamageDealt} {hp : Binary64} {e : Entity}

-- What a roll leaves of hit points, against armor.
def DamageRoll.leaves (r : DamageRoll) (armor hp : Binary64) : Binary64 :=
  let dealt := (r.amount - if r.damage.penetrate then 0 else armor).positivePart
  Binary64.max (hp - dealt) (if r.damage.nonLethal then hp.min 1 else 0)

/-! A single blow -/

theorem hurt_of_none (h : e.number? v.hpPath = none) (d : DamageDealt) : v.hurt e d = e := by
  rw [hurt, h]

theorem suffers_of_hurt (hderive : ∀ e, v.setting.keeper.derive e = e) (e : Entity)
    (d : DamageDealt) : e.Suffers [v.setting.rules.paths.hp] (v.hurt e d) := by
  cases hhp : e.number? v.hpPath with
  | none =>
    rw [hurt_of_none hhp]
    exact .refl _ e
  | some hp =>
    obtain ⟨write, hwrite⟩ : ∃ write : String × Json,
        write = (v.hpPath, .ofNumber (hpAfter d hp (v.armorAgainst e d))) := ⟨_, rfl⟩
    have hhurt : v.hurt e d = { e with system := e.system.setAll [write] } := by
      simp only [hurt, hhp, hderive, hwrite]
      rfl
    rw [hhurt]
    refine Entity.suffers_of_writes (List.forall_mem_singleton.2 ?_)
    exact ⟨_, List.mem_singleton_self _, by rw [hwrite, hpPath]⟩

-- Armor that is not found where the hit points are is as good as before.
theorem armor_hurt (hderive : ∀ e, v.setting.keeper.derive e = e)
    (harmor : v.setting.rules.paths.armor ≠ v.hpPath) (hhp : e.number? v.hpPath = some hp)
    (hfinite : hp.isFinite = true) (d : DamageDealt) : v.armor (v.hurt e d) = v.armor e := by
  have hafter := (Worn.hpAfter hfinite d (v.armorAgainst e d)).finite
  obtain ⟨left, hleft, -⟩ := Json.toNumber?_ofNumber hafter
  simp only [armor, hurt, hhp]
  rw [hderive, Entity.number?_set v.hpPath_ne_empty hhp hleft harmor]

theorem hpAfter_alike {x y : Binary64} (h : x.Alike y) (d : DamageDealt) (armor : Binary64) :
    (hpAfter d x armor).Alike (hpAfter d y armor) := by
  refine (h.sub (.refl _)).max ?_
  split
  · exact h.min (.refl 1)
  · exact .refl 0

/-! All blows against somebody -/

theorem foldl_hurt_of_none (h : e.number? v.hpPath = none) (ds : List DamageDealt) :
    ds.foldl v.hurt e = e := by
  induction ds with
  | nil => rfl
  | cons d ds ih => rw [List.foldl_cons, hurt_of_none h, ih]

theorem suffers_of_foldl (hderive : ∀ e, v.setting.keeper.derive e = e) (e : Entity)
    (ds : List DamageDealt) : e.Suffers [v.setting.rules.paths.hp] (ds.foldl v.hurt e) := by
  induction ds generalizing e with
  | nil => exact .refl _ e
  | cons d ds ih => exact (suffers_of_hurt hderive e d).trans (ih _)

-- The armor stays the same throughout, and what is read after a blow is what the blow left, but for
-- the sign of a zero.
theorem number?_foldl_hurt (hderive : ∀ e, v.setting.keeper.derive e = e)
    (harmor : v.setting.rules.paths.armor ≠ v.hpPath) (hhp : e.number? v.hpPath = some hp)
    (hfinite : hp.isFinite = true) {start : Binary64} (hstart : hp.Alike start)
    (ds : List DamageDealt) :
    ∃ left, (ds.foldl v.hurt e).number? v.hpPath = some left ∧ left.isFinite = true ∧
      left.Alike (ds.foldl (fun h d => hpAfter d h (if d.penetrate then 0 else v.armor e)) start) := by
  induction ds generalizing e hp start with
  | nil => exact ⟨hp, hhp, hfinite, hstart⟩
  | cons d ds ih =>
    obtain ⟨left, hleft, halike⟩ := number?_hurt (fun e => by rw [hderive]) hhp hfinite d
    have hleftFinite := ((Worn.hpAfter hfinite d _).of_alike halike).finite
    obtain ⟨last, hlast, hlastFinite, hend⟩ :=
      ih hleft hleftFinite (halike.trans (hpAfter_alike hstart d _))
    rw [armor_hurt hderive harmor hhp hfinite] at hend
    exact ⟨last, hlast, hlastFinite, hend⟩

/-! The attack -/

variable {damages : List Damage} {s s' : Stage} {outcome : Outcome}

-- The rolls as they fall on somebody, each as often as the targets name them.
def fallen (rolls : List DamageRoll) (targets : List Snapshot) (id : String) : List DamageRoll :=
  rolls.flatMap fun r => List.replicate ((targets.map Snapshot.id).count id) r

theorem against_eq_map (rolls : List DamageRoll) (targets : List Snapshot) (id : String) :
    against (blows rolls targets) id =
      (fallen rolls targets id).map fun r => r.blow (some id) := by
  rw [against_blows, fallen, List.map_flatMap]
  simp only [List.map_replicate]

theorem fallen_of_notMem {targets : List Snapshot} {id : String}
    (h : id ∉ targets.map Snapshot.id) (rolls : List DamageRoll) : fallen rolls targets id = [] := by
  simp [fallen, List.count_eq_zero.2 h]

-- Where nothing is recomputed and the armor is not the hit points themselves, an attack that does not
-- fail rolls every entry once, with no dice rolled after, and records the sum of the amounts. It
-- changes nobody but the targets that have hit points, and nothing of them but these, which end as if
-- the rolls were taken from them in order, each as often as they are named.
theorem hp_folded (hkind : v.op.kind = .attack damages true)
    (hderive : ∀ e, v.setting.keeper.derive e = e)
    (harmor : v.setting.rules.paths.armor ≠ v.hpPath) (h : v.begin.run s = (.ok outcome, s')) :
    ∃ targets rolls s₁, v.Rolled damages s targets rolls s₁ ∧ s'.dice = s₁.dice ∧
      outcome.value = some (.ofNumber (rolls.foldl (fun sum r => sum + r.amount) 0)) ∧
      Entries.find? "damages" outcome.fields =
        some (.arr ((blows rolls targets).map DamageDealt.toJson)) ∧
      (∀ id, Dict.find? s.world id = none → Dict.find? s'.world id = none) ∧
      ∀ id e, Dict.find? s.world id = some e →
        ∃ next, Dict.find? s'.world id = some next ∧
          e.Suffers [v.setting.rules.paths.hp] next ∧
          (id ∉ targets.map Snapshot.id ∨ e.number? v.hpPath = none → next = e) ∧
          ∀ hp, e.number? v.hpPath = some hp → hp.isFinite = true →
            ∃ left, next.number? v.hpPath = some left ∧
              left.same ((fallen rolls targets id).foldl (fun h r => r.leaves (v.armor e) h) hp) =
                true := by
  have hattacking := attacking hkind s
  rw [h] at hattacking
  cases hattacking with
  | @done targets rolls s₁ _ _ hrolled hbeaten hvalue hdamages =>
    have hworld := hbeaten.world
    rw [hrolled.asides.2.2.1] at hworld
    refine ⟨targets, rolls, s₁, hrolled, hbeaten.dice, hvalue, hdamages, fun id hnone => ?_,
      fun id e hfound => ?_⟩
    · rw [hworld, hnone]
      rfl
    rw [hworld, hfound]
    refine ⟨_, rfl, suffers_of_foldl hderive e _, ?_, fun hp hhp hfinite => ?_⟩
    · rintro (hid | hnone)
      · rw [against_eq_map, fallen_of_notMem hid]
        rfl
      · exact foldl_hurt_of_none hnone _
    · obtain ⟨left, hleft, hleftFinite, halike⟩ :=
        number?_foldl_hurt hderive harmor hhp hfinite (.refl hp) (against (blows rolls targets) id)
      rw [against_eq_map, List.foldl_map] at halike
      exact ⟨left, hleft, halike.same_of_isFinite hleftFinite⟩

-- Two entries against somebody who is named twice: one that armor lessens and that may kill, and one
-- that goes through armor and does not kill.
def stabs : List Damage :=
  [{ formula := "3" }, { formula := "2", penetrate := true, nonLethal := true }]

def stabRolls : List DamageRoll :=
  [⟨{ formula := "3" }, 3, "3"⟩, ⟨{ formula := "2", penetrate := true, nonLethal := true }, 2, "2"⟩]

def flurry : Visit where
  setting := { actor := "hero", targets := ["imp", "imp"] }
  plan := { id := "flurry" }
  op := { id := "stab", kind := .attack stabs true }

def duellist : Entity where
  id := "hero"
  name := "Hero"

def imp : Entity where
  id := "imp"
  name := "Imp"
  system := .obj [("armor", .int 1), ("hp", .obj [("max", .int 8), ("value", .int 8)])]

def ogre : Entity where
  id := "ogre"
  name := "Ogre"
  system := .obj [("hp", .obj [("max", .int 9), ("value", .int 9)])]

def bridge : Stage where
  records := {}
  ledger := {}
  world := World.ofList [duellist, imp, ogre]
  dice := .highest
  events := []

-- Of eight points two are taken twice, and then two once and one more, as one point has to be left.
theorem hp_folded_flurry :
    flurry.op.kind = .attack stabs true ∧ (∀ e, flurry.setting.keeper.derive e = e) ∧
      flurry.setting.rules.paths.armor ≠ flurry.hpPath ∧
      ∃ outcome s', flurry.begin.run bridge = (.ok outcome, s') ∧
        outcome.value = some (.ofNumber 5) ∧ Dict.find? s'.world "ogre" = some ogre ∧
        ∃ next left, Dict.find? s'.world "imp" = some next ∧
          next.number? "hp.value" = some left ∧ left.same 1 = true := by
  have hkind : flurry.op.kind = .attack stabs true := rfl
  have harmor : flurry.setting.rules.paths.armor ≠ flurry.hpPath := by decide
  have himp : Dict.find? bridge.world "imp" = some imp := by cbv
  have hogre : Dict.find? bridge.world "ogre" = some ogre := by cbv
  have hhero : Dict.find? bridge.world "hero" = some duellist := by cbv
  have hbegun : (flurry.begin.run bridge).1.isOk = true := by decide +kernel
  have htargeted : (flurry.targets.run bridge).1.toOption.map (·.map Snapshot.id) =
      some ["imp", "imp"] := by decide +kernel
  have hrolls : ((flurry.rollDamages stabs (flurry.rollData duellist bridge.records)).run
      (flurry.targets.run bridge).2).1.toOption = some stabRolls := by decide +kernel
  refine ⟨hkind, fun _ => rfl, harmor, ?_⟩
  rcases hrun : flurry.begin.run bridge with ⟨result, s'⟩
  rw [hrun] at hbegun
  cases result with
  | error failure => cases hbegun
  | ok outcome =>
    obtain ⟨targets, rolls, s₂, hrolled, -, hvalue, -, -, hends⟩ :=
      hp_folded hkind (fun _ => rfl) harmor hrun
    obtain ⟨actor, s₁, htargets, hread, hroll⟩ := hrolled.rolled
    obtain rfl : actor = duellist := Option.some.inj ((World.of_read hread).symm.trans hhero)
    simp only [htargets, hroll] at htargeted hrolls
    have hids : targets.map Snapshot.id = ["imp", "imp"] := Option.some.inj htargeted
    obtain rfl : rolls = stabRolls := Option.some.inj hrolls
    have htotal : outcome.value = some (.ofNumber 5) :=
      hvalue.trans (congrArg (fun x => some (Json.ofNumber x)) (by decide +kernel))
    obtain ⟨last, hlast, -, hspared, -⟩ := hends "ogre" ogre hogre
    obtain rfl := hspared (.inl (by rw [hids]; decide))
    obtain ⟨next, hnext, -, -, hworn⟩ := hends "imp" imp himp
    obtain ⟨left, hleft, hsame⟩ := hworn 8 (by decide +kernel) (by decide +kernel)
    have hfolded :
        (fallen stabRolls targets "imp").foldl (fun h r => r.leaves (flurry.armor imp) h) 8 = 1 := by
      rw [fallen, hids]
      decide +kernel
    rw [hfolded] at hsame
    exact ⟨outcome, s', rfl, htotal, hlast, next, left, hnext, hleft, hsame⟩

end Visit

end Tabletop
