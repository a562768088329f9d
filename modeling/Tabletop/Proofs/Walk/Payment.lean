import Tabletop.Proofs.Binary64.Alike
import Tabletop.Proofs.Entity
import Tabletop.Proofs.Records.Values
import Tabletop.Proofs.Step.Restoring
import Tabletop.Proofs.World

-- What is taken from the pools of the actor when it pays for an operation. Both costs are checked,
-- and turned into what is left, against the actor as it was read, so that where they come from one
-- pool the one that is drawn last counts.
namespace Tabletop

-- The action points and the stamina that an event tells of.
def Event.costs? : Event → Option (Binary64 × Binary64)
  | .costCharged _ _ actions stamina => some (actions, stamina)
  | _ => none

-- The path of what a pool holds.
def Draw.path (d : Draw) : String := d.pool ++ ".value"

theorem Draw.path_ne (d : Draw) : d.path ≠ "" := Path.value_ne_empty d.pool

theorem Draw.path_inj {d d' : Draw} : d.path = d'.path ↔ d.pool = d'.pool := Path.value_inj

-- Whether a pool falls by an amount that it covers, exactly so where the difference is a number.
structure Entity.Falls (e next : Entity) (path : String) (amount before after : Binary64) : Prop where
  held : e.number? path = some before
  left : next.number? path = some after
  covered : amount ≤ before
  nonneg : 0 ≤ after
  rounded : after.same (before - amount) = true
  exactly : ∀ b a, before.rank? = some b → amount.rank? = some a →
    Units.Representable (b - a).natAbs → after.rank? = some (b - a)

namespace Visit

variable {v : Visit} {actor : Entity} {d : Draw} {change : Change}

-- What is left in the pool of a draw.
def left (actor : Entity) (d : Draw) : Binary64 := (actor.number? d.path).getD 0 - d.amount

-- What draws write, each computed from the actor as it was.
def leavings (actor : Entity) (ds : List Draw) : List (String × Json) :=
  ds.map fun d => (d.path, .ofNumber (left actor d))

-- What is drawn is there.
theorem of_draw (hpositive : 0 < d.amount)
    (hfinite : ∀ x, actor.number? d.path = some x → x.isFinite = true)
    (h : v.draw actor d = .ok change) :
    change = .set d.path (.ofNumber (left actor d)) ∧
      ∃ before, actor.number? d.path = some before ∧ before.isFinite = true ∧ d.amount ≤ before := by
  simp only [draw] at h
  split at h
  · cases h
  · next hcovered =>
    cases h
    refine ⟨rfl, ?_⟩
    change ¬ (actor.number? d.path).getD 0 < d.amount at hcovered
    cases hbefore : actor.number? d.path with
    | none =>
      rw [hbefore] at hcovered
      exact absurd hpositive hcovered
    | some before =>
      rw [hbefore, Option.getD_some] at hcovered
      have hbeforeFinite := hfinite before hbefore
      have hamount : d.amount ≠ .nan := by
        intro hnan
        rw [hnan] at hpositive
        exact Binary64.not_lt_nan hpositive
      have hnumber : before ≠ .nan := by
        rintro rfl
        cases hbeforeFinite
      exact ⟨before, rfl, hbeforeFinite, Binary64.le_of_not_lt hnumber hamount hcovered⟩

theorem of_draws {ds : List Draw} {changes : List Change} (hpositive : ∀ d ∈ ds, 0 < d.amount)
    (hfinite : ∀ d ∈ ds, ∀ x, actor.number? d.path = some x → x.isFinite = true)
    (h : ds.mapM (v.draw actor) = .ok changes) :
    changes = ((leavings actor ds).map fun w => .set w.1 w.2) ∧
      ∀ d ∈ ds, ∃ before, actor.number? d.path = some before ∧ before.isFinite = true ∧
        d.amount ≤ before := by
  have hdrawn := forall₂_of_mapM_ok h
  clear h
  induction hdrawn with
  | nil => exact ⟨rfl, List.forall_mem_nil _⟩
  | cons hfirst _ ih =>
    rw [List.forall_mem_cons] at hpositive hfinite
    obtain ⟨rfl, hcovered⟩ := of_draw hpositive.1 hfinite.1 hfirst
    obtain ⟨rfl, hrest⟩ := ih hpositive.2 hfinite.2
    exact ⟨rfl, List.forall_mem_cons.2 ⟨hcovered, hrest⟩⟩

-- Of several draws on one pool the last one tells what is left.
theorem falls_of_draws {ds : List Draw} (hpositive : ∀ d ∈ ds, 0 < d.amount)
    (hcovered : ∀ d ∈ ds, ∃ before, actor.number? d.path = some before ∧ before.isFinite = true ∧
      d.amount ≤ before)
    (hlast : (ds.filter fun other => decide (other.path = d.path)).getLast? = some d) :
    ∃ before after, actor.Falls { actor with system := actor.system.setAll (leavings actor ds) }
      d.path d.amount before after := by
  have hd : d ∈ ds := List.mem_of_mem_filter (List.mem_of_getLast? hlast)
  obtain ⟨before, hbefore, hfinite, hamount⟩ := hcovered d hd
  have hleft : left actor d = before - d.amount := by rw [left, hbefore, Option.getD_some]
  have hnonneg := Binary64.le_of_lt (hpositive d hd)
  have hbetween := Binary64.sub_between hfinite hnonneg hamount
  rw [← hleft] at hbetween
  have hleftFinite := Binary64.isFinite_of_between hfinite hbetween.1 hbetween.2
  obtain ⟨after, hafter, hsame⟩ := Json.toNumber?_ofNumber hleftFinite
  have hrank : after.rank? = (left actor d).rank? := Binary64.Alike.rank?_eq (.inr hsame)
  have hread : Entity.number? { actor with system := actor.system.setAll (leavings actor ds) }
      d.path = some after := by
    have hwrites : ∀ w ∈ leavings actor ds, w.1 ≠ "" ∧ ∃ y, actor.number? w.1 = some y :=
      List.forall_mem_map.2 fun d hd => ⟨d.path_ne, _, (hcovered d hd).choose_spec.1⟩
    rw [Entity.number?_setAll hwrites d.path_ne hbefore, leavings, Entries.last?_map, hlast]
    exact hafter
  refine ⟨before, after, hbefore, hread, hamount, ?_, hleft ▸ hsame, fun b a hb ha hnumber => ?_⟩
  · cases hr : (left actor d).rank? with
    | none =>
      rw [hr] at hrank
      cases after <;> simp_all [Binary64.rank?, Binary64.same, Binary64.compare?]
    | some r =>
      rw [Binary64.le_iff_rank Binary64.rank_zero (hrank.trans hr)]
      exact (Binary64.le_iff_rank Binary64.rank_zero hr).1 hbetween.1
  · rw [hrank, hleft]
    exact Binary64.rank_sub hfinite (Binary64.isFinite_of_between hfinite hnonneg hamount) hb ha
      hnumber

theorem CostsAt.nonneg {s : Stage} {points breath : Binary64} (h : v.CostsAt actor s points breath) :
    0 ≤ points ∧ 0 ≤ breath := by
  obtain ⟨actions, -, stamina, -, -, -, rfl, rfl⟩ := h
  exact ⟨actions.total.zero_le_positivePart, stamina.total.zero_le_positivePart⟩

-- What is drawn from a pool, in order.
def drawnFrom (v : Visit) (points breath : Binary64) (pool : String) : List Binary64 :=
  ((v.draws points breath).filter fun d => decide (d.pool = pool)).map Draw.amount

theorem draws_positive (v : Visit) (points breath : Binary64) :
    ∀ d ∈ v.draws points breath, 0 < d.amount :=
  fun _ hd => of_decide_eq_true (List.mem_filter.1 hd).2

theorem pool_of_draws {points breath : Binary64} {d : Draw} (hd : d ∈ v.draws points breath) :
    d.pool = v.pointsPool ∨ d.pool = v.setting.rules.paths.stamina := by
  have hmem := (List.mem_filter.1 hd).1
  simp only [List.mem_cons, List.not_mem_nil, or_false] at hmem
  obtain rfl | rfl := hmem
  · exact .inl rfl
  · exact .inr rfl

-- Two costs that come from two pools are drawn one from each.
theorem length_drawnFrom (h : v.pointsPool ≠ v.setting.rules.paths.stamina) (points breath : Binary64)
    (pool : String) : (v.drawnFrom points breath pool).length ≤ 1 := by
  simp only [drawnFrom, draws, List.filter_cons, List.filter_nil]
  by_cases hpoints : 0 < points <;> by_cases hbreath : 0 < breath <;>
    by_cases hfirst : v.pointsPool = pool <;>
    by_cases hsecond : v.setting.rules.paths.stamina = pool <;>
    simp_all

-- Where a charge is due, one that fails takes nothing and does not count as paid. One that does not
-- fail counts as paid, and changes nothing of the actor but what the pools hold that it draws on: of
-- each of them it takes what is drawn last, which the pool covers. That is all that is drawn unless
-- both costs come from one pool; there the first one is not taken.
theorem charge_drawn {run : Run} (hdue : v.setting.costsApply = true ∧ v.op.costs.isFree = false ∧
      Dict.contains run.charged v.op.id = false)
    (hactor : Dict.find? run.world v.setting.actor = some actor) (hid : actor.id = v.setting.actor)
    (hfinite : ∀ pool ∈ [v.pointsPool, v.setting.rules.paths.stamina],
      ∀ x, actor.number? (pool ++ ".value") = some x → x.isFinite = true) :
    (∀ failure run', v.charge run = (.error failure, run') →
      run'.world = run.world ∧ run'.charged = run.charged) ∧
    ∀ run', v.charge run = (.ok (), run') →
      run'.charged = run.charged.add v.op.id ∧
      ∃ points breath, v.CostsAt actor run.toStage points breath ∧ 0 ≤ points ∧ 0 ≤ breath ∧
        run'.events.getLast? = some (.costCharged v.op.id v.pointsPool points breath) ∧
        ∃ next : Entity,
          (run'.world = run.world ∧ next = actor ∨
            run'.world = Dict.insert run.world v.setting.actor (v.setting.keeper.derive next)) ∧
          next = { actor with system := next.system } ∧
          actor.system.SameApart
            ((v.draws points breath).map fun d => Path.segments (d.pool ++ ".value")) next.system ∧
          (∀ pool amount, (v.drawnFrom points breath pool).getLast? = some amount →
            ∃ before after, actor.Falls next (pool ++ ".value") amount before after) ∧
          (v.pointsPool ≠ v.setting.rules.paths.stamina →
            ∀ pool, (v.drawnFrom points breath pool).length ≤ 1) := by
  obtain ⟨happly, hcost, huncharged⟩ := hdue
  have hdue : (!v.setting.costsApply || v.op.costs.isFree || Dict.contains run.charged v.op.id) =
      false := by
    rw [happly, hcost, huncharged]
    rfl
  simp only [charge, hdue, Run.act, Bool.false_eq_true, if_false]
  rcases v.pay_cases run.toStage with ⟨failure, stage, hpay, hasides⟩ |
    ⟨actor', points, breath, changes, stage, hpay, hpaid, hcosts⟩ <;> rw [hpay]
  · refine ⟨?_, by rintro _ ⟨⟩⟩
    rintro _ _ ⟨⟩
    exact ⟨hasides.2.2.1, rfl⟩
  · refine ⟨by rintro _ _ ⟨⟩, ?_⟩
    rintro _ ⟨⟩
    obtain rfl : actor' = actor :=
      Option.some.inj ((World.of_read hpaid.read).symm.trans hactor)
    have hpositive := v.draws_positive points breath
    obtain ⟨hchanges, hcovered⟩ := of_draws hpositive (fun d hd => hfinite d.pool (by
      simpa using pool_of_draws hd)) hpaid.drawn
    obtain ⟨system, hsystem⟩ : ∃ system, system =
        actor'.system.setAll (leavings actor' (v.draws points breath)) := ⟨_, rfl⟩
    obtain ⟨told, hevents, -⟩ := hpaid.events
    refine ⟨rfl, points, breath, hcosts, hcosts.nonneg.1, hcosts.nonneg.2, by simp [hevents],
      { actor' with system }, ?_, rfl, ?_, fun pool amount hlast => ?_,
      fun hpools => length_drawnFrom hpools points breath⟩
    · have hworld := hpaid.world
      rw [hchanges] at hworld
      split at hworld
      · next hnone =>
        exact .inl ⟨hworld, by rw [hsystem, List.map_eq_nil_iff.1 hnone]; rfl⟩
      · obtain ⟨e, next, hfound, hnext, hinsert⟩ := World.of_update hworld
        obtain rfl : actor' = e := Option.some.inj (hactor.symm.trans (hid ▸ hfound))
        cases hnext.symm.trans (actor'.applyAll_sets _)
        exact .inr (hid ▸ hsystem ▸ hinsert)
    · have hways := Json.sameApart_setAll actor'.system (leavings actor' (v.draws points breath))
      rwa [← hsystem, leavings, List.map_map] at hways
    · rw [drawnFrom, List.getLast?_map] at hlast
      obtain ⟨d, hd, rfl⟩ := Option.map_eq_some_iff.1 hlast
      have hpool : d.pool = pool :=
        of_decide_eq_true (List.mem_filter.1 (List.mem_of_getLast? hd)).2
      subst hpool
      simp only [← Draw.path_inj] at hd
      exact hsystem ▸ falls_of_draws hpositive hcovered hd

-- A leap that costs two action points and three points of stamina, all from one pool.
def leap : Visit where
  setting :=
    { actor := "hero", combat := some ⟨"hero", 1⟩, rules := { paths := { turnPoints := "stamina" } } }
  plan := { id := "vault" }
  op := { id := "leap", kind := .message "Hop", costs := { actions := "2", stamina := "3" } }

def leaper : Entity where
  id := "hero"
  name := "Hero"
  system := .obj [("stamina", .obj [("max", .int 10), ("value", .int 10)])]

def rested : Run where
  records := {}
  ledger := {}
  world := World.ofList [leaper]
  dice := .highest
  events := []
  charged := {}

-- Five are drawn, and three are taken.
theorem charge_drawn_leap :
    (leap.setting.costsApply = true ∧ leap.op.costs.isFree = false ∧
      Dict.contains rested.charged leap.op.id = false) ∧
    Dict.find? rested.world leap.setting.actor = some leaper ∧ leaper.id = leap.setting.actor ∧
    (∀ pool ∈ [leap.pointsPool, leap.setting.rules.paths.stamina],
      ∀ x, leaper.number? (pool ++ ".value") = some x → x.isFinite = true) ∧
    ∃ run', leap.charge rested = (.ok (), run') ∧
      leap.drawnFrom (.ofNat 2) (.ofNat 3) "stamina" = [.ofNat 2, .ofNat 3] ∧
      ∃ next before after, Dict.find? run'.world "hero" = some next ∧
        leaper.Falls next "stamina.value" (.ofNat 3) before after := by
  have hdue : leap.setting.costsApply = true ∧ leap.op.costs.isFree = false ∧
      Dict.contains rested.charged leap.op.id = false := by decide +kernel
  have hhero : Dict.find? rested.world leap.setting.actor = some leaper := by rfl
  have hfinite : ∀ pool ∈ [leap.pointsPool, leap.setting.rules.paths.stamina],
      ∀ x, leaper.number? (pool ++ ".value") = some x → x.isFinite = true := by
    intro pool hpool x hx
    obtain rfl : pool = "stamina" := by simpa [pointsPool, leap] using hpool
    have hten : leaper.number? ("stamina" ++ ".value") = some (.ofNat 10) := by decide +kernel
    rw [Option.some.inj (hx.symm.trans hten)]
    decide +kernel
  have hdrawn : leap.drawnFrom (.ofNat 2) (.ofNat 3) "stamina" = [.ofNat 2, .ofNat 3] := by
    decide +kernel
  have hcharged : (leap.charge rested).1.isOk = true := by decide +kernel
  have hcosts : (leap.charge rested).2.events.getLast?.bind Event.costs? =
      some (.ofNat 2, .ofNat 3) := by decide +kernel
  refine ⟨hdue, hhero, rfl, hfinite, ?_⟩
  rcases hrun : leap.charge rested with ⟨result, run'⟩
  rw [hrun] at hcharged hcosts
  cases result with
  | error failure => cases hcharged
  | ok =>
    obtain ⟨-, hpaid⟩ := charge_drawn (v := leap) hdue hhero rfl hfinite
    obtain ⟨-, points, breath, -, -, -, hevent, next, hworld, -, -, hfalls, -⟩ := hpaid run' hrun
    simp only [hevent, Option.bind_some, Event.costs?, Option.some.injEq, Prod.mk.injEq] at hcosts
    rw [hcosts.1, hcosts.2] at hfalls
    obtain ⟨before, after, hfall⟩ := hfalls "stamina" _ (by rw [hdrawn]; rfl)
    refine ⟨run', rfl, hdrawn, next, before, after, ?_, hfall⟩
    obtain ⟨hsame, rfl⟩ | hinsert := hworld
    · rw [hsame]
      exact hhero
    · rw [hinsert, leap, Dict.find?_insert, if_pos rfl]
      rfl

end Visit

end Tabletop
