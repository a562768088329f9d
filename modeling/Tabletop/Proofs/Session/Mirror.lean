import Tabletop.Proofs.Session.Relating
import Tabletop.Proofs.Session.Stock
import Tabletop.Proofs.Walk.Mirror

-- The pools of a session and their values on record, over all that is done to the activity in
-- memory.
namespace Tabletop.Session

variable {tie : Tie} {plan : Plan} {s t : Session}

theorem conducts_tied (hplan : plan.Apart) (setting : Setting) :
    Conducts setting plan (.keeping (Stage.Tied tie plan)) where
  visits op hop target := Visit.conducts_tied (v := ⟨setting, plan, op⟩) hplan.ids hop target
  binds s target h id r hfound := by
    obtain ⟨hkey, ⟨op, hop, hcreates⟩, hholds⟩ := h id r hfound
    have hid : id ≠ Records.targetKey :=
      (Validation.creates_iff.1 hcreates).1 ▸ hplan.target op hop
    have hvalue : (s.records.bind target).value? id = s.records.value? id := by
      simp only [Records.value?, Records.find?_bind, if_neg hid]
    exact ⟨hkey, ⟨op, hop, hcreates⟩, by rwa [hvalue]⟩
  marks _ _ _ h := h.of_eq rfl rfl

-- After a reset the records show the pools that were filled.
theorem tied_refilled {ledger : Ledger} (ids : List String) {records : Records} {id : String}
    {r : Resource} (hfound : Dict.find? ledger id = some r)
    (h : id ∈ ids ∨ tie.Holds r.value (records.value? id)) :
    tie.Holds r.value (Records.value? (ids.foldl (fun records id =>
      match Dict.find? ledger id with
      | some r => records.setValue id (Json.ofReal r.value)
      | none => records) records) id) := by
  induction ids generalizing records with
  | nil =>
    rcases h with h | h
    · cases h
    · exact h
  | cons k ids ih =>
    rw [List.foldl_cons]
    refine ih ?_
    by_cases hk : id = k
    · subst hk
      rw [hfound]
      refine .inr ?_
      rw [Records.value?_setValue, if_pos rfl]
      exact tie.real r.value
    · rw [List.mem_cons, or_iff_right hk] at h
      refine h.imp_right fun hholds => ?_
      split
      · rwa [Records.value?_setValue, if_neg hk]
      · exact hholds

theorem tied_reset (trigger : ResetTrigger) (h : s.run.toStage.Tied tie plan) :
    (s.perform (.reset trigger)).run.toStage.Tied tie plan := by
  intro id r hfound
  change Dict.find? (s.activity.ledger.reset trigger).2 id = some r at hfound
  have hreset := hfound
  rw [Ledger.reset, Dict.find?_mapValues] at hreset
  obtain ⟨old, hold, hnew⟩ := Option.map_eq_some_iff.1 hreset
  obtain ⟨hkey, hmakes, hholds⟩ := h id old hold
  have hid : r.id = id := by
    rw [← hkey, ← hnew]
    split <;> rfl
  refine ⟨hid, hmakes, tied_refilled _ hfound ?_⟩
  by_cases hdue : Ledger.isDue trigger old = true
  · refine .inl ?_
    have hmem : old ∈ Dict.values s.activity.ledger :=
      List.mem_map.2 ⟨(id, old), Dict.mem_entries_iff.2 hold, rfl⟩
    exact hkey ▸ List.mem_map_of_mem (List.mem_filter.2 ⟨hmem, hdue⟩)
  · rw [if_neg hdue] at hnew
    exact .inr (hnew ▸ hholds)

theorem tied_perform {d : Deed} (hplan : t.activity.toPlan.Apart) (hd : d.InMemory)
    (h : t.run.toStage.Tied tie t.activity.toPlan) :
    (t.perform d).activity.toPlan = t.activity.toPlan ∧
      (t.perform d).run.toStage.Tied tie t.activity.toPlan := by
  cases d with
  | call setting c => exact ⟨toPlan_call t c, conducts_call (conducts_tied hplan setting) c h⟩
  | reset trigger => exact ⟨rfl, tied_reset trigger h⟩
  | clearPending => exact ⟨rfl, h⟩
  | reload savedAt => exact hd.elim
  | meanwhile world dice => exact ⟨rfl, h.of_eq rfl rfl⟩

theorem Course.tied (hplan : s.activity.toPlan.Apart)
    (h : s.run.toStage.Tied tie s.activity.toPlan) (ht : s.Course (fun _ d => d.InMemory) t) :
    t.activity.toPlan = s.activity.toPlan ∧ t.run.toStage.Tied tie s.activity.toPlan := by
  refine ht.keeps (P := fun t => t.activity.toPlan = s.activity.toPlan ∧
    t.run.toStage.Tied tie s.activity.toPlan) (fun t d hd ⟨hsame, htied⟩ => ?_) ⟨rfl, h⟩
  rw [← hsame] at hplan htied ⊢
  exact tied_perform hplan hd htied

-- In an activity without errors whose pools were made by its operations and are read on record, a
-- pool is read there after all that is done to the activity in memory as long as it is finite, and a
-- reference to it stands for its value. What is beyond the finite numbers leaves no value on record.
-- Pools stay finite as long as no event tells of one that is not.
theorem pools_mirrored (hvalid : s.activity.errors = [])
    (howned : ∀ id r, Dict.find? s.activity.ledger id = some r →
      r.id = id ∧ s.activity.toPlan.Makes id)
    (hread : ∀ id r, Dict.find? s.activity.ledger id = some r →
      s.activity.records.ReadsAs id r.value)
    (ht : s.Course (fun _ d => d.InMemory) t) {id : String} {r : Resource}
    (hfound : Dict.find? t.activity.ledger id = some r) :
    (r.id = id ∧ s.activity.toPlan.Makes id) ∧
    (r.value.isFinite = true → t.activity.records.ReadsAs id r.value ∧
      ∃ text, Placeholder.resolve? t.activity.records.value? id = some text ∧
        (text = r.value.format ∨ t.activity.records.value? id = some (.str text))) ∧
    (s.activity.ledger.Finite → r.value.isFinite = false →
      ¬ t.activity.records.ReadsAs id r.value ∧
        Placeholder.resolve? t.activity.records.value? id = none) ∧
    ∃ events, t.events = s.events ++ events ∧
      ((∀ e ∈ events, e.Sound) → s.activity.ledger.Finite → r.value.isFinite = true) := by
  have hplan := Activity.apart_of_errors_eq hvalid
  obtain ⟨events, hevents, hfinite⟩ := ht.stocking
  have hreading : s.run.toStage.Tied .reading s.activity.toPlan := fun k r' hk =>
    ⟨(howned k r' hk).1, (howned k r' hk).2, fun _ => hread k r' hk⟩
  obtain ⟨-, htied⟩ := ht.tied hplan hreading
  obtain ⟨hkey, hmakes, hholds⟩ := htied id r hfound
  have hname : Placeholder.isName id = true := by
    obtain ⟨op, hop, hcreates⟩ := hmakes
    rw [← (Validation.creates_iff.1 hcreates).1]
    exact (Activity.ids_of_errors_eq hvalid).1 op hop
  refine ⟨⟨hkey, hmakes⟩, fun hvalue => ⟨hholds hvalue, ?_⟩, fun hstart hvalue => ?_,
    events, hevents, fun hsound hstart => (hfinite hsound hstart id r hfound).2⟩
  · exact Placeholder.resolve?_of_readsAs hname hvalue (hholds hvalue)
  · have hblank : s.run.toStage.Tied .blank s.activity.toPlan := fun k r' hk =>
      ⟨(howned k r' hk).1, (howned k r' hk).2, fun hboundless =>
        absurd (hstart k r' hk).2 (by simp [hboundless])⟩
    obtain ⟨-, hlost⟩ := ht.tied hplan hblank
    have hnone : t.activity.records.value? id = none := (hlost id r hfound).2.2 hvalue
    refine ⟨?_, by simp [Placeholder.resolve?, hnone]⟩
    rintro ⟨j, y, hsome, -⟩
    simp [hnone] at hsome

-- A purse that nothing is taken from, and a debt that grows beyond all numbers.
def purse : Operation :=
  { id := "purse", kind := .createResource "Coins" "3" false .never }

def debt : Operation :=
  { id := "debt", priority := 1, kind := .createResource "Gold" "-@fortune" true .never }

def loan : Operation :=
  { id := "loan", priority := 2, kind := .consumeResource "debt" "@fortune" }

def tycoon : Entity :=
  { id := "hero", name := "Hero", system := .obj [("fortune", .float (.ofDecimal false 1 308))] }

def ruin : Session where
  activity := { id := "ruin", operations := [purse, debt, loan] }
  world := World.ofList [tycoon]
  dice := .highest

theorem errors_ruin : ruin.activity.errors = [] :=
  Activity.errors_eq_nil (by decide +kernel) (by decide +kernel) (by decide +kernel)
    (by decide +kernel)

-- All three operations lead on, one after another.
theorem start_ruin : ∃ run, (ruin.start lone none).2.activity = (ruin.begun.keep run).activity ∧
    (Dict.find? run.ledger "purse").map Resource.value = some 3 ∧
    (Dict.find? run.ledger "debt").map Resource.value = some (.infinite true) := by
  have hpools : (Run.pass? lone ruin.activity.toPlan [purse, debt, loan] ruin.begun.run).map
      (fun run => ((Dict.find? run.ledger "purse").map Resource.value,
        (Dict.find? run.ledger "debt").map Resource.value)) =
      some (some 3, some (.infinite true)) := by decide +kernel
  obtain ⟨run, hpass, hvalues⟩ := Option.map_eq_some_iff.1 hpools
  refine ⟨run, ?_, (Prod.ext_iff.1 hvalues).1, (Prod.ext_iff.1 hvalues).2⟩
  have horder : ruin.activity.toPlan.order = [purse, debt, loan] :=
    List.mergeSort_of_pairwise (by decide)
  have hwalk : ruin.begun.run.walk lone ruin.activity.toPlan ⟨0, none, [], false⟩ = (none, run) :=
    Run.walk_of_pass? (by rw [List.drop_zero, horder, hpass])
  rw [start_of_walk errors_ruin hwalk]
  rfl

-- The purse is read on record after the run, and the debt no more.
theorem pools_mirrored_ruin :
    let ruined := (ruin.start lone none).2
    ruin.activity.errors = [] ∧ ruin.Course (fun _ d => d.InMemory) ruined ∧
      (∃ r, Dict.find? ruined.activity.ledger "purse" = some r ∧ r.value = 3 ∧
        ruined.activity.records.ReadsAs "purse" r.value) ∧
      ∃ r, Dict.find? ruined.activity.ledger "debt" = some r ∧ r.value = .infinite true ∧
        ¬ ruined.activity.records.ReadsAs "debt" r.value ∧
        Placeholder.resolve? ruined.activity.records.value? "debt" = none := by
  obtain ⟨run, hactivity, hpurse, hdebt⟩ := start_ruin
  have hcourse : ruin.Course (fun _ d => d.InMemory) (ruin.start lone none).2 :=
    .next (.call lone (.start none)) trivial .here
  have hledger : (ruin.start lone none).2.activity.ledger = run.ledger := by rw [hactivity]; rfl
  have hempty : ∀ id r, Dict.find? ruin.activity.ledger id ≠ some r := fun _ _ h => nomatch h
  have hmirrored {id : String} {r : Resource}
      (hfound : Dict.find? (ruin.start lone none).2.activity.ledger id = some r) :=
    pools_mirrored errors_ruin (fun id r h => absurd h (hempty id r))
      (fun id r h => absurd h (hempty id r)) hcourse hfound
  rw [← hledger] at hpurse hdebt
  obtain ⟨coins, hcoins, hthree⟩ := Option.map_eq_some_iff.1 hpurse
  obtain ⟨gold, hgold, hboundless⟩ := Option.map_eq_some_iff.1 hdebt
  have hfinite : coins.value.isFinite = true := by rw [hthree]; decide +kernel
  obtain ⟨-, -, hlost, -⟩ := hmirrored hgold
  exact ⟨errors_ruin, hcourse, ⟨coins, hcoins, hthree, ((hmirrored hcoins).2.1 hfinite).1⟩,
    gold, hgold, hboundless, hlost (fun id r h => absurd h (hempty id r)) (by rw [hboundless]; rfl)⟩

end Tabletop.Session
