import Mathlib.Algebra.BigOperators.Group.Finset.Piecewise
import Mathlib.Algebra.Order.BigOperators.Group.Finset
import Mathlib.Algebra.Order.BigOperators.Group.List
import Mathlib.Algebra.Order.Group.Defs
import Mathlib.Algebra.Order.Group.Int
import Mathlib.Algebra.Ring.Int.Defs
import Tabletop.Proofs.Binary64.Alike
import Tabletop.Proofs.Binary64.Order
import Tabletop.Proofs.Records.Values
import Tabletop.Proofs.Step.Commitment

-- How far the pools rise that an operation restores, against what it tells of them. Every entry is
-- computed from the recipient as it was read, so that of several entries for one pool only the last
-- one counts, while all of them are told and added up.
namespace Tabletop

namespace Entity

-- What a pool holds, counted in the least units.
def held (e : Entity) (pool : String) : Int :=
  ((e.number? (pool ++ ".value")).bind Binary64.rank?).getD 0

-- Whether a pool did not fall, and did not rise above its maximum unless it was there before.
structure Rises (e next : Entity) (pool : String) : Prop where
  risen : ∃ before after, e.number? (pool ++ ".value") = some before ∧
    next.number? (pool ++ ".value") = some after ∧ before ≤ after ∧
    ∀ m, e.number? (pool ++ ".max") = some m → after ≤ m.max before

end Entity

-- The entry that a document tells. Its numbers are finite, as there is no form for others.
def Visit.Restored.ofJson? (j : Json) : Option Restored := do
  let .str resource ← j.member? "resource" | none
  let before ← (← j.member? "before").toNumber?
  let after ← (← j.member? "after").toNumber?
  return ⟨resource, before, after⟩

namespace Outcome

-- The entries for pools that are told.
def restored? (o : Outcome) : Option (List Visit.Restored) := do
  let .arr entries ← Entries.find? "restored" o.fields | none
  entries.mapM Visit.Restored.ofJson?

-- The exact value of a recorded number, in the least units.
def units? (o : Outcome) : Option Int := (o.value.bind Json.toNumber?).bind Binary64.rank?

end Outcome

namespace Visit

namespace Restored

variable {restored : List Restored} {r : Restored} {pool : String}

def IsFinite (r : Restored) : Prop := r.before.isFinite = true ∧ r.after.isFinite = true

theorem ofJson?_toJson {told : Restored} :
    ofJson? r.toJson = some told ↔ told = r ∧ r.IsFinite := by
  obtain ⟨resource, before, after⟩ := r
  have hmember : ∀ key, (toJson ⟨resource, before, after⟩).member? key =
      Entries.last? key [("resource", .str resource), ("before", .ofReal before),
        ("after", .ofReal after)] := fun _ => Entries.find?_ofList
  cases hbefore : before.isFinite <;> cases hafter : after.isFinite <;>
    simp [ofJson?, hmember, Entries.last?, Json.toNumber?_ofReal, hbefore, hafter, IsFinite, eq_comm]

theorem mapM_toJson {told : List Restored} :
    (restored.map toJson).mapM ofJson? = some told ↔
      told = restored ∧ ∀ r ∈ restored, r.IsFinite := by
  induction restored generalizing told with
  | nil => simp [eq_comm]
  | cons r restored ih =>
    rw [List.map_cons, List.mapM_cons]
    simp only [Option.bind_eq_bind, Option.bind_eq_some_iff, ofJson?_toJson, ih,
      List.forall_mem_cons]
    constructor
    · rintro ⟨_, ⟨rfl, hfirst⟩, _, ⟨rfl, hrest⟩, ⟨⟩⟩
      exact ⟨rfl, hfirst, hrest⟩
    · rintro ⟨rfl, hfirst, hrest⟩
      exact ⟨r, ⟨rfl, hfirst⟩, restored, ⟨rfl, hrest⟩, rfl⟩

-- What is told can be read where its numbers are finite.
theorem restored?_eq_some_iff {o : Outcome} {told : List Restored} (h : o.Tells restored) :
    o.restored? = some told ↔ told = restored ∧ ∀ r ∈ restored, r.IsFinite := by
  rw [Outcome.restored?, h.entries]
  exact mapM_toJson

-- How far a pool rises by what an entry tells, in the least units.
def rise (r : Restored) : Int := r.after.rank?.getD 0 - r.before.rank?.getD 0

-- What the entries for a pool tell, in order.
def told (restored : List Restored) (pool : String) : List Int :=
  (restored.filter fun r => decide (r.resource = pool)).map rise

-- Whether all gains and what they add up to are numbers, so that none of them is rounded.
structure Exact (restored : List Restored) : Prop where
  gains : ∀ r ∈ restored, Units.Representable r.rise.natAbs
  totals : ∀ part, part <+: restored → Units.Representable (part.map rise).sum.natAbs

/-! A single entry -/

theorem le_raised {before : Binary64} (hbefore : before.isFinite = true) (amount : Binary64)
    (maximum : Option Binary64) : before ≤ raised before amount maximum := by
  have hrisen := Binary64.le_add hbefore amount.zero_le_positivePart
  cases maximum with
  | none => exact hrisen
  | some m =>
    exact Binary64.le_min hrisen (Binary64.le_max_right m (Binary64.ne_nan_of_isFinite hbefore))

theorem raised_le {before : Binary64} (hbefore : before.isFinite = true) (amount m : Binary64) :
    raised before amount (some m) ≤ m.max before := by
  have hmost := Binary64.le_max_right m (Binary64.ne_nan_of_isFinite hbefore)
  exact Binary64.min_le_right _ (Binary64.ne_nan_of_le hmost).2

theorem rise_nonneg (h : r.before ≤ r.after) (hr : r.IsFinite) : 0 ≤ r.rise := by
  obtain ⟨a, ha⟩ := Binary64.exists_rank hr.1
  obtain ⟨b, hb⟩ := Binary64.exists_rank hr.2
  rw [Binary64.le_iff_rank ha hb] at h
  simp only [rise, ha, hb, Option.getD_some]
  omega

theorem rank_gain (hr : r.IsFinite) (h : Units.Representable r.rise.natAbs) :
    r.gain.rank? = some r.rise := by
  obtain ⟨a, ha⟩ := Binary64.exists_rank hr.1
  obtain ⟨b, hb⟩ := Binary64.exists_rank hr.2
  have hrise : r.rise = b - a := by simp only [rise, ha, hb, Option.getD_some]
  rw [hrise] at h ⊢
  exact Binary64.rank_sub hr.2 hr.1 hb ha h

/-! Several entries -/

theorem told_cons (r : Restored) (restored : List Restored) (pool : String) :
    told (r :: restored) pool =
      if r.resource = pool then r.rise :: told restored pool else told restored pool := by
  by_cases hpool : r.resource = pool <;> simp [told, hpool]

-- What is told of all pools is what all entries tell.
theorem sum_told {pools : Finset String} (h : ∀ r ∈ restored, r.resource ∈ pools) :
    ∑ pool ∈ pools, (told restored pool).sum = (restored.map rise).sum := by
  induction restored with
  | nil => simp [told]
  | cons r restored ih =>
    rw [List.forall_mem_cons] at h
    have hfirst : ∀ pool, (told (r :: restored) pool).sum =
        (if r.resource = pool then r.rise else 0) + (told restored pool).sum := by
      intro pool
      rw [told_cons]
      split
      · rw [List.sum_cons]
      · rw [Int.zero_add]
    rw [Finset.sum_congr rfl fun pool _ => hfirst pool, Finset.sum_add_distrib, ih h.2,
      Finset.sum_ite_eq, if_pos h.1, List.map_cons, List.sum_cons]

-- Of numbers none of which is negative, the last one is all where the others are nothing.
theorem last_le_sum {xs : List Int} (h : ∀ x ∈ xs, 0 ≤ x) :
    xs.getLast?.getD 0 ≤ xs.sum ∧ (xs.getLast?.getD 0 = xs.sum ↔ ∀ x ∈ xs.dropLast, x = 0) := by
  cases hlast : xs.getLast? with
  | none =>
    obtain rfl := List.getLast?_eq_none_iff.1 hlast
    simp
  | some last =>
    obtain ⟨others, rfl⟩ := List.getLast?_eq_some_iff.1 hlast
    rw [List.forall_mem_append] at h
    have hothers := List.sum_nonneg h.1
    rw [List.sum_append, List.dropLast_concat, List.sum_singleton, Option.getD_some]
    refine ⟨by omega, fun heq x hx => ?_, fun hzero => ?_⟩
    · exact List.all_zero_of_le_zero_le_of_sum_eq_zero h.1 (by omega) hx
    · rw [List.sum_eq_zero hzero, Int.zero_add]

-- The running total is exact as long as it is a number.
theorem rank_foldl_gain {acc : Binary64} {a : Int} (hacc : acc.isFinite = true)
    (hrank : acc.rank? = some a) (hfinite : ∀ r ∈ restored, r.IsFinite)
    (hgains : ∀ r ∈ restored, Units.Representable r.rise.natAbs)
    (htotals : ∀ part, part <+: restored → Units.Representable (a + (part.map rise).sum).natAbs) :
    (restored.foldl (fun sum r => sum + r.gain) acc).isFinite = true ∧
      (restored.foldl (fun sum r => sum + r.gain) acc).rank? =
        some (a + (restored.map rise).sum) := by
  induction restored generalizing acc a with
  | nil => simpa using ⟨hacc, hrank⟩
  | cons r restored ih =>
    rw [List.forall_mem_cons] at hfinite hgains
    have hgain := rank_gain hfinite.1 hgains.1
    have hfirst : Units.Representable (a + r.rise).natAbs := by
      simpa using htotals [r] (List.prefix_append [r] restored)
    have hsum := Binary64.rank_add hacc (Binary64.isFinite_of_rank hgain hgains.1.1) hrank hgain hfirst
    have hrest := ih (Binary64.isFinite_of_rank hsum hfirst.1) hsum hfinite.2 hgains.2
      fun part hpart => by
        simpa [Int.add_assoc] using htotals (r :: part) (List.cons_prefix_cons.2 ⟨rfl, hpart⟩)
    simpa [Int.add_assoc] using hrest

theorem rank_total (hfinite : ∀ r ∈ restored, r.IsFinite) (h : Exact restored) :
    (total restored).isFinite = true ∧ (total restored).rank? = some (restored.map rise).sum := by
  have htotal := rank_foldl_gain Binary64.isFinite_zero Binary64.rank_zero hfinite h.gains
    fun part hpart => by simpa using h.totals part hpart
  rwa [Int.zero_add] at htotal

theorem units_of_tells {o : Outcome} (htells : o.Tells restored)
    (hfinite : ∀ r ∈ restored, r.IsFinite) (h : Exact restored) :
    o.units? = some (restored.map rise).sum := by
  have htotal := rank_total hfinite h
  obtain ⟨recorded, hrecorded, hsame⟩ := Json.toNumber?_ofNumber htotal.1
  rw [Outcome.units?, htells.value, Option.bind_some, hrecorded, Option.bind_some,
    Binary64.Alike.rank?_eq (.inr hsame), htotal.2]

/-! What is stored -/

variable {target next : Entity}

theorem told_nonneg (hraises : ∀ r ∈ restored, ∃ amount, r.Raises target (r.resource, amount))
    (hfinite : ∀ r ∈ restored, r.IsFinite) : ∀ rise ∈ told restored pool, 0 ≤ rise := by
  intro rise hrise
  obtain ⟨r, hr, rfl⟩ := List.mem_map.1 hrise
  have hmem := (List.mem_filter.1 hr).1
  obtain ⟨amount, hraised⟩ := hraises r hmem
  refine rise_nonneg ?_ (hfinite r hmem)
  rw [hraised.after]
  exact le_raised (hfinite r hmem).1 amount _

-- The number that is stored in the end is the one of the last entry for its pool.
theorem number?_of_risen
    (hheld : ∀ r ∈ restored, target.number? (r.resource ++ ".value") = some r.before)
    (hnext : next.system = target.system.setAll (risen restored))
    (hlast : (restored.filter fun r => decide (r.resource = pool)).getLast? = some r)
    (hr : r.IsFinite) :
    ∃ after, next.number? (pool ++ ".value") = some after ∧ after.Alike r.after := by
  obtain ⟨hmem, hpool⟩ := List.mem_filter.1 (List.mem_of_getLast? hlast)
  have hbefore := hheld r hmem
  rw [of_decide_eq_true hpool] at hbefore
  have hwrites : ∀ w ∈ risen restored, w.1 ≠ "" ∧ ∃ y, target.number? w.1 = some y :=
    List.forall_mem_map.2 fun r hr => ⟨Path.value_ne_empty _, r.before, hheld r hr⟩
  obtain ⟨after, hafter, hsame⟩ := Json.toNumber?_ofNumber hr.2
  refine ⟨after, ?_, .inr hsame⟩
  have hread := Entity.number?_setAll hwrites (Path.value_ne_empty pool) hbefore
  rw [← hnext, risen, Entries.last?_map] at hread
  simp only [Path.value_inj, hlast] at hread
  exact hread.trans hafter

theorem rises_of_risen
    (hraises : ∀ r ∈ restored, ∃ amount, r.Raises target (r.resource, amount))
    (hfinite : ∀ r ∈ restored, r.IsFinite)
    (hnext : next.system = target.system.setAll (risen restored))
    (hpool : pool ∈ restored.map resource) :
    target.Rises next pool ∧
      next.held pool - target.held pool = (told restored pool).getLast?.getD 0 := by
  obtain ⟨r, hr, rfl⟩ := List.mem_map.1 hpool
  have hsome : (restored.filter fun other => decide (other.resource = r.resource)) ≠ [] :=
    List.ne_nil_of_mem (List.mem_filter.2 ⟨hr, decide_eq_true rfl⟩)
  obtain ⟨last, hlast⟩ := Option.ne_none_iff_exists'.1 (mt List.getLast?_eq_none_iff.1 hsome)
  obtain ⟨hmem, hresource⟩ := List.mem_filter.1 (List.mem_of_getLast? hlast)
  have hresource := of_decide_eq_true hresource
  obtain ⟨amount, -, hbefore, hraised⟩ := hraises last hmem
  rw [hresource] at hbefore hraised
  have hlastFinite := hfinite last hmem
  obtain ⟨after, hafter, halike⟩ := number?_of_risen
    (fun r hr => (hraises r hr).choose_spec.before) hnext hlast hlastFinite
  refine ⟨⟨last.before, after, hbefore, hafter, ?_, fun m hm => ?_⟩, ?_⟩
  · rw [(Binary64.Alike.refl _).le_iff halike, hraised]
    exact le_raised hlastFinite.1 amount _
  · rw [halike.le_iff (.refl _), hraised, hm]
    exact raised_le hlastFinite.1 amount m
  · simp only [Entity.held, hafter, hbefore, Option.bind_some, halike.rank?_eq, told,
      List.getLast?_map, hlast, Option.map_some, Option.getD_some, rise]

end Restored

open Restored

variable {v : Visit} {m : Mend} {s s' : Stage} {outcome : Outcome} {restored : List Restored}

-- Where nobody recomputes entities, every pool that is restored rises, and within its maximum, by what
-- the last of its entries tells. That is the sum of what all of them tell as long as the others tell
-- of no rise. The recorded number is the sum of what all entries tell, and so the sum of what the
-- pools rise by as long as that is so of each of them.
theorem risen_as_told_iff (hkind : v.op.kind.mend? v.setting.rules.paths = some m)
    (hkeyed : s.world.Keyed) (hderive : ∀ e, v.setting.keeper.derive e = e)
    (h : v.begin.run s = (.ok outcome, s')) (htold : outcome.restored? = some restored) :
    restored.map resource = m.pools ∧
      ∃ recipient target next, (∃ s₁, (v.recipientId m.recipient).run s = (.ok recipient, s₁)) ∧
        Dict.find? s.world recipient = some target ∧ Dict.find? s'.world recipient = some next ∧
        (∀ pool ∈ m.pools, target.Rises next pool ∧
          (next.held pool - target.held pool = (told restored pool).sum ↔
            ∀ rise ∈ (told restored pool).dropLast, rise = 0)) ∧
        (Exact restored → outcome.units? = some (restored.map rise).sum ∧
          (outcome.units? = some (∑ pool ∈ m.pools.toFinset, (next.held pool - target.held pool)) ↔
            ∀ pool ∈ m.pools, next.held pool - target.held pool = (told restored pool).sum)) := by
  obtain ⟨actor, recipient, pools, spent, entries, -, hrecipient, hpools, -, htells, hcommitted⟩ :=
    mended_of_run hkind hkeyed h
  obtain ⟨rfl, hfinite⟩ := (restored?_eq_some_iff htells).1 htold
  obtain ⟨target, next, htarget, hrestored, hnext, hsystem⟩ := hcommitted.pools
  rw [hderive] at hnext
  have hresources := (resources_of_restoreAll hrestored).trans hpools
  refine ⟨hresources, recipient, target, next, hrecipient, htarget, hnext, ?_⟩
  have hraises : ∀ r ∈ restored, ∃ amount, r.Raises target (r.resource, amount) := by
    intro r hr
    obtain ⟨⟨pool, amount⟩, -, hraised⟩ := exists_of_forall₂ (raises_of_restoreAll hrestored) r hr
    obtain rfl : r.resource = pool := hraised.resource
    exact ⟨amount, hraised⟩
  have hrises : ∀ pool ∈ m.pools, target.Rises next pool ∧
      next.held pool - target.held pool = (told restored pool).getLast?.getD 0 :=
    fun pool hpool => rises_of_risen hraises hfinite hsystem (hresources ▸ hpool)
  refine ⟨fun pool hpool => ?_, fun hexact => ?_⟩
  · obtain ⟨hrisen, hlast⟩ := hrises pool hpool
    rw [hlast]
    exact ⟨hrisen, (last_le_sum (told_nonneg hraises hfinite)).2⟩
  · have hunits := units_of_tells htells hfinite hexact
    have hmem : ∀ r ∈ restored, r.resource ∈ m.pools.toFinset := fun r hr =>
      List.mem_toFinset.2 (hresources ▸ List.mem_map_of_mem hr)
    have hle : ∀ pool ∈ m.pools.toFinset,
        next.held pool - target.held pool ≤ (told restored pool).sum := by
      intro pool hpool
      rw [(hrises pool (List.mem_toFinset.1 hpool)).2]
      exact (last_le_sum (told_nonneg hraises hfinite)).1
    refine ⟨hunits, ?_⟩
    rw [hunits, Option.some.injEq, ← sum_told hmem, eq_comm, Finset.sum_eq_sum_iff_of_le hle]
    simp only [List.mem_toFinset]

-- A tonic that restores one pool twice, by three points and by five.
def tonic : Visit where
  setting := { actor := "hero" }
  plan := { id := "feast" }
  op := { id := "tonic", kind := .consumption [⟨"hp", "3"⟩, ⟨"hp", "5"⟩] [] .actor }

def weary : Entity where
  id := "hero"
  name := "Hero"
  system := .obj [("hp", .obj [("max", .int 10), ("value", .int 1)])]

def tavern : Stage where
  records := {}
  ledger := {}
  world := World.ofList [weary]
  dice := .highest
  events := []

-- Eight points are told, of which the pool rises by the last five.
theorem risen_as_told_iff_tonic :
    let entries : List Restored := [⟨"hp", .ofNat 1, .ofNat 4⟩, ⟨"hp", .ofNat 1, .ofNat 6⟩]
    tonic.op.kind.mend? tonic.setting.rules.paths = some ⟨.actor, [], ["hp", "hp"]⟩ ∧
      tavern.world.Keyed ∧ (∀ e, tonic.setting.keeper.derive e = e) ∧
      ∃ outcome s', tonic.begin.run tavern = (.ok outcome, s') ∧
        outcome.restored? = some entries ∧ Exact entries ∧
        told entries "hp" = [3 * (Units.one : Int), 5 * (Units.one : Int)] ∧
        outcome.units? = some (8 * (Units.one : Int)) ∧
        ∃ next, Dict.find? s'.world "hero" = some next ∧ weary.Rises next "hp" ∧
          next.held "hp" - weary.held "hp" ≠ (told entries "hp").sum := by
  intro entries
  have hkind : tonic.op.kind.mend? tonic.setting.rules.paths =
      some ⟨.actor, [], ["hp", "hp"]⟩ := rfl
  have hkeyed : tavern.world.Keyed := World.keyed_ofList _
  have hhero : Dict.find? tavern.world "hero" = some weary := by rfl
  have hgains : told entries "hp" = [3 * (Units.one : Int), 5 * (Units.one : Int)] := by decide +kernel
  have hexact : Exact entries := by
    refine ⟨by decide +kernel, fun part hpart => ?_⟩
    have hparts : ∀ part ∈ entries.inits, Units.Representable (part.map rise).sum.natAbs := by
      decide +kernel
    exact hparts part ((List.mem_inits part entries).2 hpart)
  have hbegun : (tonic.begin.run tavern).1.isOk = true := by decide +kernel
  have htold : (tonic.begin.run tavern).1.toOption.bind Outcome.restored? = some entries := by
    decide +kernel
  have hunits : (tonic.begin.run tavern).1.toOption.bind Outcome.units? =
      some (8 * (Units.one : Int)) := by decide +kernel
  refine ⟨hkind, hkeyed, fun _ => rfl, ?_⟩
  rcases hrun : tonic.begin.run tavern with ⟨result, s'⟩
  rw [hrun] at hbegun htold hunits
  cases result with
  | error failure => cases hbegun
  | ok outcome =>
    obtain ⟨-, recipient, target, next, ⟨s₁, hrecipient⟩, htarget, hnext, hpools, -⟩ :=
      risen_as_told_iff hkind hkeyed (fun _ => rfl) hrun htold
    obtain rfl : "hero" = recipient := by
      cases hrecipient
      rfl
    obtain rfl : weary = target := Option.some.inj (hhero.symm.trans htarget)
    obtain ⟨hrises, hsum⟩ := hpools "hp" List.mem_cons_self
    refine ⟨outcome, s', rfl, htold, hexact, hgains, hunits, next, hnext, hrises, fun heq => ?_⟩
    have hfirst : 3 * (Units.one : Int) ∈ (told entries "hp").dropLast := by
      rw [hgains, List.dropLast_cons_cons]
      exact List.mem_cons_self
    exact absurd (hsum.1 heq _ hfirst) (by decide +kernel)

end Visit

end Tabletop
