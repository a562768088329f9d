import Tabletop.Proofs.Binary64.Alike
import Tabletop.Proofs.Binary64.Order
import Tabletop.Proofs.Records.Values
import Tabletop.Proofs.Step.Striking

-- What blows leave of hit points. They never heal somebody who has any, but damage that may kill
-- raises hit points below zero to zero.
namespace Tabletop

namespace Visit

variable {v : Visit} {d : DamageDealt} {ds more : List DamageDealt}
  {hp left last : Binary64} {e : Entity}

/-! A single blow -/

theorem sub_dealt_le (hhp : hp.isFinite = true) (d : DamageDealt) (armor : Binary64) :
    hp - (d.amount - armor).positivePart ≤ hp :=
  Binary64.sub_le hhp (Binary64.zero_le_positivePart _)

theorem hpAfter_of_nonLethal (hhp : hp.isFinite = true) (h : d.nonLethal = true)
    (armor : Binary64) : hp.min 1 ≤ hpAfter d hp armor ∧ hpAfter d hp armor ≤ hp := by
  have hleast : hp.min 1 ≤ hp := Binary64.min_le_left (Binary64.ne_nan_of_isFinite hhp) 1
  simp only [hpAfter, h, if_true]
  exact ⟨Binary64.le_max_right _ (Binary64.ne_nan_of_le hleast).1,
    Binary64.max_le (sub_dealt_le hhp d armor) hleast⟩

theorem hpAfter_of_lethal (hhp : hp.isFinite = true) (h : d.nonLethal = false)
    (armor : Binary64) :
    0 ≤ hpAfter d hp armor ∧ (0 ≤ hp → hpAfter d hp armor ≤ hp) ∧
      (hp < 0 → hpAfter d hp armor = 0) := by
  have hdealt := sub_dealt_le hhp d armor
  simp only [hpAfter, h, Bool.false_eq_true, if_false]
  exact ⟨Binary64.le_max_right _ (Binary64.ne_nan_of_isFinite Binary64.isFinite_zero),
    Binary64.max_le hdealt, fun hneg => Binary64.max_eq_right (Binary64.lt_of_le_of_lt hdealt hneg)⟩

-- Whether blows may have made this of hit points.
structure Worn (ds : List DamageDealt) (hp left : Binary64) : Prop where
  finite : left.isFinite = true
  within : 0 ≤ hp → 0 ≤ left ∧ left ≤ hp
  spared : (∀ d ∈ ds, d.nonLethal = true) → left ≤ hp ∧ (1 ≤ hp → 1 ≤ left)
  raised : hp < 0 → (∃ d ∈ ds, d.nonLethal = false) → left.Alike 0

namespace Worn

theorem refl (hhp : hp.isFinite = true) : Worn [] hp hp where
  finite := hhp
  within h := ⟨h, Binary64.le_refl hhp⟩
  spared _ := ⟨Binary64.le_refl hhp, id⟩
  raised _ h := by simp at h

theorem hpAfter (hhp : hp.isFinite = true) (d : DamageDealt) (armor : Binary64) :
    Worn [d] hp (hpAfter d hp armor) := by
  cases hd : d.nonLethal with
  | true =>
    obtain ⟨hleast, hmost⟩ := hpAfter_of_nonLethal hhp hd armor
    have hfloor : ∀ x, x ≤ hp → x ≤ 1 → x ≤ Visit.hpAfter d hp armor := fun x h h' =>
      Binary64.le_trans (Binary64.le_min h h') hleast
    have hmin : (hp.min 1).isFinite = true := by
      obtain heq | heq := Binary64.min_eq_or hp 1
      · rwa [heq]
      · rw [heq]
        exact Binary64.isFinite_one
    exact {
      finite := Binary64.isFinite_of_le_of_le hmin hhp hleast hmost
      within h := ⟨hfloor 0 h Binary64.zero_le_one, hmost⟩
      spared _ := ⟨hmost, fun h => hfloor 1 h (Binary64.le_refl Binary64.isFinite_one)⟩
      raised _ h := by simp [hd] at h }
  | false =>
    obtain ⟨hleast, hmost, hzero⟩ := hpAfter_of_lethal hhp hd armor
    have hspared : ¬ ∀ other ∈ [d], other.nonLethal = true := by simp [hd]
    obtain hnonneg | hneg := Binary64.le_or_lt Binary64.isFinite_zero hhp
    · exact {
        finite := Binary64.isFinite_of_le_of_le Binary64.isFinite_zero hhp hleast (hmost hnonneg)
        within _ := ⟨hleast, hmost hnonneg⟩
        spared h := absurd h hspared
        raised h := absurd (Binary64.lt_of_le_of_lt hnonneg h) (Binary64.not_lt_self 0) }
    · rw [hzero hneg]
      exact {
        finite := Binary64.isFinite_zero
        within h := absurd (Binary64.lt_of_le_of_lt h hneg) (Binary64.not_lt_self 0)
        spared h := absurd h hspared
        raised _ _ := .refl 0 }

-- The sign of a zero does not matter.
theorem of_alike {other : Binary64} (h : Worn ds hp left) (hother : other.Alike left) :
    Worn ds hp other where
  finite := by
    obtain rfl | ⟨s, t, rfl, rfl⟩ := hother.eq_or_zeros
    · exact h.finite
    · rfl
  within hnonneg := by
    rw [Binary64.Alike.le_iff (.refl 0) hother, hother.le_iff (.refl hp)]
    exact h.within hnonneg
  spared hspared := by
    rw [Binary64.Alike.le_iff (.refl 1) hother, hother.le_iff (.refl hp)]
    exact h.spared hspared
  raised hneg hlethal := hother.trans (h.raised hneg hlethal)

theorem append (h : Worn ds hp left) (h' : Worn more left last) : Worn (ds ++ more) hp last where
  finite := h'.finite
  within hnonneg := by
    obtain ⟨hleft, hmost⟩ := h.within hnonneg
    obtain ⟨hlast, hle⟩ := h'.within hleft
    exact ⟨hlast, Binary64.le_trans hle hmost⟩
  spared hspared := by
    rw [List.forall_mem_append] at hspared
    obtain ⟨hmost, hleast⟩ := h.spared hspared.1
    obtain ⟨hle, hlast⟩ := h'.spared hspared.2
    exact ⟨Binary64.le_trans hle hmost, fun hone => hlast (hleast hone)⟩
  raised hneg hlethal := by
    obtain ⟨d, hd, hdlethal⟩ := hlethal
    by_cases hfirst : ∃ d ∈ ds, d.nonLethal = false
    · -- From zero on nothing changes.
      have hzero := h.raised hneg hfirst
      have hself : (0 : Binary64) ≤ 0 := Binary64.le_refl Binary64.isFinite_zero
      obtain ⟨hlast, hle⟩ := h'.within ((Binary64.Alike.le_iff (.refl 0) hzero).2 hself)
      exact .inr (Binary64.same_of_le_of_le ((Binary64.Alike.le_iff (.refl last) hzero).1 hle) hlast)
    · simp only [not_exists, not_and, Bool.not_eq_false] at hfirst
      have hleft := Binary64.lt_of_le_of_lt (h.spared hfirst).1 hneg
      refine h'.raised hleft ⟨d, (List.mem_append.1 hd).resolve_left fun hmem => ?_, hdlethal⟩
      exact absurd (hfirst d hmem) (by simp [hdlethal])

-- Hit points below zero rise by any blow that may kill, and in no other way.
theorem le_iff (hhp : hp.isFinite = true) (h : Worn ds hp left) :
    left ≤ hp ↔ 0 ≤ hp ∨ ∀ d ∈ ds, d.nonLethal = true := by
  constructor
  · intro hle
    obtain hnonneg | hneg := Binary64.le_or_lt Binary64.isFinite_zero hhp
    · exact .inl hnonneg
    refine .inr fun d hd => ?_
    by_contra hlethal
    have hzero := h.raised hneg ⟨d, hd, Bool.eq_false_iff.2 hlethal⟩
    have hnonneg : 0 ≤ hp := (hzero.le_iff (.refl hp)).1 hle
    exact Binary64.not_lt_self 0 (Binary64.lt_of_le_of_lt hnonneg hneg)
  · rintro (hnonneg | hspared)
    · exact (h.within hnonneg).2
    · exact (h.spared hspared).1

end Worn

/-! What is stored -/

-- Hit points that are written over others are read again, whatever else is recomputed.
theorem number?_hurt
    (hderive : ∀ e, (v.setting.keeper.derive e).number? v.hpPath = e.number? v.hpPath)
    (hhp : e.number? v.hpPath = some hp) (hfinite : hp.isFinite = true) (d : DamageDealt) :
    ∃ left, (v.hurt e d).number? v.hpPath = some left ∧
      left.Alike (hpAfter d hp (v.armorAgainst e d)) := by
  have hafter := (Worn.hpAfter hfinite d (v.armorAgainst e d)).finite
  obtain ⟨left, hleft, hsame⟩ := Json.toNumber?_ofNumber hafter
  refine ⟨left, ?_, .inr hsame⟩
  simp only [hurt, hhp]
  rw [hderive, Entity.number?_eq v.hpPath_ne_empty, Json.set, Json.follow?_write, Option.bind_some,
    hleft]

theorem worn_of_hurt
    (hderive : ∀ e, (v.setting.keeper.derive e).number? v.hpPath = e.number? v.hpPath)
    (hhp : e.number? v.hpPath = some hp) (hfinite : hp.isFinite = true) (ds : List DamageDealt) :
    ∃ left, (ds.foldl v.hurt e).number? v.hpPath = some left ∧ Worn ds hp left := by
  induction ds generalizing e hp with
  | nil => exact ⟨hp, hhp, .refl hfinite⟩
  | cons d ds ih =>
    obtain ⟨left, hleft, halike⟩ := number?_hurt hderive hhp hfinite d
    have hfirst := (Worn.hpAfter hfinite d (v.armorAgainst e d)).of_alike halike
    obtain ⟨last, hlast, hrest⟩ := ih hleft hfirst.finite
    exact ⟨last, hlast, hfirst.append hrest⟩

section Attack

variable {damages : List Damage} {rolls : List DamageRoll} {targets : List Snapshot} {id : String}
  {s s' : Stage}

theorem damages_of_rolls
    (h : List.Forall₂ (fun damage r => r.damage = damage ∧ 0 ≤ r.amount) damages rolls) :
    rolls.map DamageRoll.damage = damages := by
  induction h with
  | nil => rfl
  | cons hfirst _ ih => rw [List.map_cons, ih, hfirst.1]

theorem nonLethal_of_blows (h : ∀ r ∈ rolls, r.damage.nonLethal = true) :
    ∀ d ∈ blows rolls targets, d.nonLethal = true := by
  intro d hd
  obtain ⟨r, hr, hd⟩ := List.mem_flatMap.1 hd
  obtain ⟨target, -, rfl⟩ := List.mem_map.1 hd
  exact h r hr

-- Somebody is spared by an attack that does not aim there, or that never kills.
theorem nonLethal_against_iff :
    (∀ d ∈ against (blows rolls targets) id, d.nonLethal = true) ↔
      id ∉ targets.map Snapshot.id ∨ ∀ r ∈ rolls, r.damage.nonLethal = true := by
  rw [against_blows]
  constructor
  · intro h
    by_cases hid : id ∈ targets.map Snapshot.id
    · refine .inr fun r hr => h (r.blow (some id)) ?_
      exact List.mem_flatMap.2 ⟨r, hr, List.mem_replicate.2 ⟨mt List.count_eq_zero.1 (not_not.2 hid), rfl⟩⟩
    · exact .inl hid
  · rintro (hid | hspared) d hd
    · rw [List.count_eq_zero.2 hid] at hd
      simp at hd
    · obtain ⟨r, hr, hd⟩ := List.mem_flatMap.1 hd
      obtain rfl := List.eq_of_mem_replicate hd
      exact hspared r hr

-- Where recomputing leaves hit points as they are written, an attack leaves finite ones finite, even
-- where it fails in between. None that are not negative rise or fall below zero, and none at all rise
-- from damage that does not kill, which takes nobody below one. An attack that does not fail raises
-- hit points only where they are negative and it aims there with damage that may kill.
theorem hp_le_iff (hkind : v.op.kind = .attack damages true)
    (hderive : ∀ e, (v.setting.keeper.derive e).number? v.hpPath = e.number? v.hpPath)
    (hfound : Dict.find? s.world id = some e) (hhp : e.number? v.hpPath = some hp)
    (hfinite : hp.isFinite = true) {result : Except Failure Outcome}
    (h : v.begin.run s = (result, s')) :
    ∃ next left, Dict.find? s'.world id = some next ∧ next.number? v.hpPath = some left ∧
      left.isFinite = true ∧ (0 ≤ hp → 0 ≤ left ∧ left ≤ hp) ∧
      ((∀ damage ∈ damages, damage.nonLethal = true) → left ≤ hp ∧ (1 ≤ hp → 1 ≤ left)) ∧
      ∀ outcome, result = .ok outcome → ∃ targets s₁, v.targets.run s = (.ok targets, s₁) ∧
        (left ≤ hp ↔ 0 ≤ hp ∨ id ∉ targets.map Snapshot.id ∨
          ∀ damage ∈ damages, damage.nonLethal = true) := by
  have hworn : ∀ struck, Dict.find? s'.world id =
      (Dict.find? s.world id).map (fun e => (against struck id).foldl v.hurt e) →
      ∃ next left, Dict.find? s'.world id = some next ∧ next.number? v.hpPath = some left ∧
        Worn (against struck id) hp left := by
    intro struck hworld
    obtain ⟨left, hleft, hworn⟩ := worn_of_hurt hderive hhp hfinite (against struck id)
    rw [hfound] at hworld
    exact ⟨_, left, hworld, hleft, hworn⟩
  have hattacking := attacking hkind s
  rw [h] at hattacking
  cases hattacking with
  | refused hasides =>
    obtain ⟨next, left, hnext, hleft, hworn⟩ := hworn [] (by
      rw [hasides.2.2.1]
      exact Option.map_id'.symm)
    exact ⟨next, left, hnext, hleft, hworn.finite, hworn.within,
      fun _ => hworn.spared (List.forall_mem_nil _), by simp⟩
  | @broken targets rolls struck s₁ _ failure hrolled hpart hbeaten =>
    obtain ⟨next, left, hnext, hleft, hworn⟩ := hworn struck (by
      rw [hbeaten.world, hrolled.asides.2.2.1])
    refine ⟨next, left, hnext, hleft, hworn.finite, hworn.within, fun hspared => ?_, by simp⟩
    refine hworn.spared fun d hd => ?_
    rw [← damages_of_rolls hrolled.amounts, List.forall_mem_map] at hspared
    exact nonLethal_of_blows hspared d (hpart.subset (List.mem_of_mem_filter hd))
  | @done targets rolls s₁ _ outcome hrolled hbeaten =>
    obtain ⟨next, left, hnext, hleft, hworn⟩ := hworn (blows rolls targets) (by
      rw [hbeaten.world, hrolled.asides.2.2.1])
    obtain ⟨-, s₂, htargets, -⟩ := hrolled.rolled
    rw [← damages_of_rolls hrolled.amounts, List.forall_mem_map]
    refine ⟨next, left, hnext, hleft, hworn.finite, hworn.within, fun hspared => ?_, fun _ _ => ?_⟩
    · exact hworn.spared (nonLethal_against_iff.2 (.inr hspared))
    · exact ⟨targets, s₂, htargets, by rw [hworn.le_iff hfinite, nonLethal_against_iff]⟩

-- Three points of damage that may kill, against somebody who is below zero already.
def waylay : Visit where
  setting := { actor := "hero", targets := ["bandit"] }
  plan := { id := "waylay" }
  op := { id := "club", kind := .attack [{ formula := "3" }] true }

def bandit : Entity where
  id := "bandit"
  name := "Bandit"
  system := .obj [("hp", .obj [("max", .int 7), ("value", .int (-5))])]

def thicket : Stage where
  records := {}
  ledger := {}
  world := World.ofList [{ id := "hero", name := "Hero" }, bandit]
  dice := .highest
  events := []

-- Five points below zero rise.
theorem hp_le_iff_waylay :
    waylay.op.kind = .attack [{ formula := "3" }] true ∧
      (∀ e, (waylay.setting.keeper.derive e).number? waylay.hpPath = e.number? waylay.hpPath) ∧
      Dict.find? thicket.world "bandit" = some bandit ∧
      bandit.number? waylay.hpPath = some (.ofInt (-5)) ∧ (Binary64.ofInt (-5)).isFinite = true ∧
      ∃ outcome s', waylay.begin.run thicket = (.ok outcome, s') ∧
        ∃ next left, Dict.find? s'.world "bandit" = some next ∧
          next.number? waylay.hpPath = some left ∧ ¬ left ≤ .ofInt (-5) := by
  have hkind : waylay.op.kind = .attack [{ formula := "3" }] true := rfl
  have hbandit : Dict.find? thicket.world "bandit" = some bandit := by cbv
  have hhp : bandit.number? waylay.hpPath = some (.ofInt (-5)) := by decide +kernel
  have hfinite : (Binary64.ofInt (-5)).isFinite = true := by decide +kernel
  have hbegun : (waylay.begin.run thicket).1.isOk = true := by decide +kernel
  have htargeted : (waylay.targets.run thicket).1.toOption.map (·.map Snapshot.id) =
      some ["bandit"] := by decide +kernel
  refine ⟨hkind, fun _ => rfl, hbandit, hhp, hfinite, ?_⟩
  rcases hrun : waylay.begin.run thicket with ⟨result, s'⟩
  rw [hrun] at hbegun
  cases result with
  | error failure => cases hbegun
  | ok outcome =>
    obtain ⟨next, left, hnext, hleft, -, -, -, hfalls⟩ :=
      hp_le_iff hkind (fun _ => rfl) hbandit hhp hfinite hrun
    obtain ⟨targets, s₁, htargets, hiff⟩ := hfalls outcome rfl
    simp only [htargets] at htargeted
    have hids : targets.map Snapshot.id = ["bandit"] := Option.some.inj htargeted
    refine ⟨outcome, s', rfl, next, left, hnext, hleft, ?_⟩
    rw [hiff, hids]
    decide +kernel

end Attack

end Visit

end Tabletop
