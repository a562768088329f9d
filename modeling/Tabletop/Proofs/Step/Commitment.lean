import Tabletop.Proofs.Step.Components

-- An operation that restores and fails costs its actor nothing, whatever the store refuses; one that
-- does not fail has put everything into the world. No entity is updated more than once on the way, so
-- that a store that refuses an update now and then is one that has some of the entities locked.
namespace Tabletop

-- Whether an outcome tells of these entries for pools, and their gains as its value.
structure Outcome.Tells (o : Outcome) (restored : List Visit.Restored) : Prop where
  entries : Entries.find? "restored" o.fields = some (.arr (restored.map Visit.Restored.toJson))
  value : o.value = some (.ofNumber (Visit.Restored.total restored))

namespace Visit

variable {v : Visit} {m : Mend} {s s' : Stage}

-- What an operation that restores comes to where it does not fail.
theorem mended_of_run {outcome : Outcome}
    (hkind : v.op.kind.mend? v.setting.rules.paths = some m) (hkeyed : s.world.Keyed)
    (h : v.begin.run s = (.ok outcome, s')) :
    ∃ actor recipient pools spent restored, Dict.find? s.world v.setting.actor = some actor ∧
      (∃ s₁, (v.recipientId m.recipient).run s = (.ok recipient, s₁)) ∧
      pools.map Prod.fst = m.pools ∧ v.spend actor m.components = .ok spent ∧
      outcome.Tells restored ∧
      v.Committed actor recipient pools spent restored s.world s'.world := by
  have hmending := v.mending hkind s
  rw [h] at hmending
  cases hmending with
  | @mended actor recipient pools spent s₁ s₂ s₃ restored outcome hprepared hrestoring hasides _
      hvalue hentries =>
    have hactor := World.of_read hprepared.read
    have hid : actor.id = v.setting.actor := hkeyed _ _ hactor
    have hsame := hprepared.asides.2.2.1
    have hcommitted := committed_of_restoring (hsame ▸ hactor) hid
      (spends_of_spend hprepared.spend) hrestoring
    rw [hsame, ← hasides.2.2.1] at hcommitted
    exact ⟨actor, recipient, pools, spent, restored, hactor, hprepared.recipient, hprepared.pools,
      hprepared.spend, ⟨hentries, hvalue⟩, hcommitted⟩

theorem kept_of_run {failure : Failure} (hkind : v.op.kind.mend? v.setting.rules.paths = some m)
    (hkeyed : s.world.Keyed) (h : v.begin.run s = (.error failure, s')) :
    Dict.find? s'.world v.setting.actor = Dict.find? s.world v.setting.actor := by
  have hmending := v.mending hkind s
  rw [h] at hmending
  cases hmending with
  | refused hasides => rw [hasides.2.2.1]
  | failed hprepared hrestoring =>
    have hid := hkeyed _ _ (World.of_read hprepared.read)
    rw [kept_of_restoring hid hrestoring, hprepared.asides.2.2.1]

-- Whichever entities cannot be read or updated, an operation that fails leaves its actor, and so the
-- quantity of every item, as it was. One that does not fail has written what it tells of the pools of
-- the recipient, and set all the quantities that it computed for its components.
theorem kept_or_committed (hkind : v.op.kind.mend? v.setting.rules.paths = some m)
    (hkeyed : s.world.Keyed) :
    (∀ failure s', v.begin.run s = (.error failure, s') →
      Dict.find? s'.world v.setting.actor = Dict.find? s.world v.setting.actor) ∧
    ∀ outcome s', v.begin.run s = (.ok outcome, s') →
      ∃ actor recipient pools spent restored, Dict.find? s.world v.setting.actor = some actor ∧
        (∃ s₁, (v.recipientId m.recipient).run s = (.ok recipient, s₁)) ∧
        pools.map Prod.fst = m.pools ∧ v.spend actor m.components = .ok spent ∧
        outcome.Tells restored ∧
        v.Committed actor recipient pools spent restored s.world s'.world :=
  ⟨fun _ _ h => kept_of_run hkind hkeyed h, fun _ _ h => mended_of_run hkind hkeyed h⟩

-- Four points for somebody else, which take two of the three herbs.
def elixir (keeper : Keeper) : Visit where
  setting := { actor := "hero", targets := ["ally"], keeper }
  plan := { id := "elixir" }
  op := { id := "brew", kind := .heal "4" none .target [⟨"h1", 2⟩] }

def healer : Entity where
  id := "hero"
  name := "Hero"
  items := [⟨"h1", "Herb", none, 3, true⟩]

def infirmary : Stage where
  records := {}
  ledger := {}
  world := World.ofList [healer,
    { id := "ally", name := "Ally"
      system := .obj [("hp", .obj [("max", .int 10), ("value", .int 3)])] }]
  dice := .highest
  events := []

-- Where the other one cannot be updated all herbs are left; where that can be done one is left, and
-- the other one has four points more.
theorem kept_or_committed_elixir :
    let refusing : Keeper := { locked := fun id => if id = "ally" then some (.other "busy") else none }
    let mend : Mend := ⟨.target, [⟨"h1", 2⟩], ["hp"]⟩
    (∀ keeper, (elixir keeper).op.kind.mend? (elixir keeper).setting.rules.paths = some mend) ∧
      infirmary.world.Keyed ∧
      (∃ failure s', (elixir refusing).begin.run infirmary = (.error failure, s') ∧
        Dict.find? s'.world "hero" = some healer) ∧
      ∃ outcome s', (elixir {}).begin.run infirmary = (.ok outcome, s') ∧
        (Dict.find? s'.world "ally").bind (·.number? "hp.value") = some (.ofNat 7) ∧
        ∃ hero, Dict.find? s'.world "hero" = some hero ∧ hero.items.map Item.quantity = [1] := by
  intro refusing mend
  have hkind : ∀ keeper,
      (elixir keeper).op.kind.mend? (elixir keeper).setting.rules.paths = some mend := fun _ => rfl
  have hkeyed : infirmary.world.Keyed := World.keyed_ofList _
  have hhealer : Dict.find? infirmary.world "hero" = some healer := by cbv
  have hfails : ((elixir refusing).begin.run infirmary).1.isOk = false := by decide +kernel
  have hheals : ((elixir {}).begin.run infirmary).1.isOk = true := by decide +kernel
  have hrises : (Dict.find? ((elixir {}).begin.run infirmary).2.world "ally").bind
      (·.number? "hp.value") = some (.ofNat 7) := by decide +kernel
  refine ⟨hkind, hkeyed, ?_, ?_⟩
  · obtain ⟨hkept, -⟩ := kept_or_committed (hkind refusing) hkeyed
    rcases hrun : (elixir refusing).begin.run infirmary with ⟨result, s'⟩
    rw [hrun] at hfails
    cases result with
    | ok outcome => cases hfails
    | error failure => exact ⟨failure, s', rfl, (hkept failure s' hrun).trans hhealer⟩
  · obtain ⟨-, hcommits⟩ := kept_or_committed (hkind {}) hkeyed
    rcases hrun : (elixir {}).begin.run infirmary with ⟨result, s'⟩
    rw [hrun] at hheals hrises
    cases result with
    | error failure => cases hheals
    | ok outcome =>
      obtain ⟨actor, _, _, spent, _, hactor, -, -, hspend, -, hcommitted⟩ := hcommits outcome s' hrun
      obtain rfl : actor = healer := Option.some.inj (hactor.symm.trans hhealer)
      obtain rfl : spent = [.itemQuantity "h1" 1] := by
        cases hspend
        rfl
      obtain ⟨hero, hhero, hstocked⟩ := hcommitted.items
      have hleft : hero.items = [⟨"h1", "Herb", none, 1, true⟩] := (Option.some.inj hstocked).symm
      exact ⟨outcome, s', rfl, hrises, hero, hhero.elim id id, by rw [hleft]; rfl⟩

end Visit

end Tabletop
