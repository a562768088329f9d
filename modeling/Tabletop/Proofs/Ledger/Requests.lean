import Tabletop.Proofs.Ledger
import Tabletop.Proofs.Ledger.Bounds

-- What a ledger keeps through all requests: every pool under its own id, and everything about a
-- pool but what it holds.
namespace Tabletop.Ledger

-- Whether every pool is kept under its own id.
def Keyed (ledger : Ledger) : Prop := ∀ key r, Dict.find? ledger key = some r → r.id = key

-- Whether a ledger still has all pools of an earlier one, the same but for what they hold.
def Carries (ledger after : Ledger) : Prop :=
  ∀ key r, Dict.find? ledger key = some r → ∃ value, Dict.find? after key = some { r with value }

variable {ledger after last : Ledger} {key : String} {r : Resource}

namespace Carries

theorem refl (ledger : Ledger) : ledger.Carries ledger := fun _ r h => ⟨r.value, h⟩

theorem trans (h : ledger.Carries after) (h' : after.Carries last) : ledger.Carries last := by
  intro key r hfound
  obtain ⟨value, hvalue⟩ := h key r hfound
  exact h' key { r with value } hvalue

theorem serve (ledger : Ledger) (request : Request) : ledger.Carries (ledger.serve request) :=
  fun _ _ hfound => ⟨_, find?_serve hfound request⟩

-- By induction on the requests, each of which is answered by what the ones before it left.
theorem serveAll (ledger : Ledger) (requests : List Request) :
    ledger.Carries (ledger.serveAll requests) := by
  induction requests generalizing ledger with
  | nil => exact refl ledger
  | cons request requests ih => exact (serve ledger request).trans (ih (ledger.serve request))

end Carries

/-! Single requests -/

theorem create_of_found (hfound : Dict.find? ledger r.id ≠ none) :
    ledger.create r = (false, ledger) := by
  rw [create, Dict.contains, Option.isSome_iff_ne_none.2 hfound, if_pos rfl]

theorem create_of_new (hnew : Dict.find? ledger r.id = none) :
    ledger.create r = (true, Dict.insert ledger r.id r) := by
  rw [create, Dict.contains, hnew]
  rfl

-- A pool is new after a request only if it was asked for.
theorem of_find?_serve {request : Request} (hnew : Dict.find? ledger key = none)
    (hfound : Dict.find? (ledger.serve request) key = some r) :
    request = .create r ∧ r.id = key := by
  cases request with
  | create resource =>
    rw [serve] at hfound
    by_cases hthere : Dict.find? ledger resource.id = none
    · rw [create_of_new hthere, Dict.find?_insert] at hfound
      split at hfound
      · next hkey =>
        cases hfound
        exact ⟨rfl, hkey.symm⟩
      · cases hnew.symm.trans hfound
    · rw [create_of_found hthere] at hfound
      cases hnew.symm.trans hfound
  | consume id amount =>
    rw [serve] at hfound
    split at hfound
    · next hconsumed =>
      obtain ⟨old, hold, -, rfl⟩ := of_consume hconsumed
      rw [Dict.find?_insert] at hfound
      split at hfound
      · next hkey =>
        subst hkey
        cases hnew.symm.trans hold
      · cases hnew.symm.trans hfound
    · cases hnew.symm.trans hfound
  | reset trigger =>
    rw [serve, reset, Dict.find?_mapValues, hnew] at hfound
    cases hfound

theorem Keyed.serve (h : ledger.Keyed) (request : Request) : (ledger.serve request).Keyed := by
  intro key r hfound
  cases hold : Dict.find? ledger key with
  | none => exact (of_find?_serve hold hfound).2
  | some old =>
    rw [find?_serve hold request] at hfound
    cases hfound
    exact h key old hold

theorem Keyed.serveAll (h : ledger.Keyed) (requests : List Request) :
    (ledger.serveAll requests).Keyed := by
  induction requests generalizing ledger with
  | nil => exact h
  | cons request requests ih => exact ih (h.serve request)

-- What is taken from a pool, and nothing else.
theorem find?_consume {id : String} {amount left : Binary64}
    (h : ledger.consume id amount = .ok (left, after)) :
    (∃ r, Dict.find? ledger id = some r ∧ Dict.find? after id = some { r with value := left }) ∧
      ∀ key, key ≠ id → Dict.find? after key = Dict.find? ledger key := by
  obtain ⟨r, hr, -, rfl⟩ := of_consume h
  exact ⟨⟨r, hr, by simp⟩, fun key hkey => by simp [hkey]⟩

/-! Refills -/

theorem isDue_iff {trigger : ResetTrigger} :
    isDue trigger r = true ↔ trigger ≠ .never ∧ r.reset = trigger := by
  simp [isDue]

-- The ids of the pools that are filled are their keys, in order.
theorem fst_reset (h : ledger.Keyed) (trigger : ResetTrigger) : (ledger.reset trigger).1 =
    (ledger.entries.filter fun entry => isDue trigger entry.2).map Prod.fst := by
  have hids : ∀ entry ∈ ledger.entries.filter fun entry => isDue trigger entry.2,
      entry.2.id = entry.1 := fun entry hentry =>
    h entry.1 entry.2 (Dict.mem_entries_iff.1 (List.mem_filter.1 hentry).1)
  rw [reset, Dict.values, List.filter_map, List.map_map]
  exact List.map_congr_left hids

theorem mem_reset (h : ledger.Keyed) {trigger : ResetTrigger} : key ∈ (ledger.reset trigger).1 ↔
    ∃ r, Dict.find? ledger key = some r ∧ trigger ≠ .never ∧ r.reset = trigger := by
  simp only [fst_reset h, List.mem_map, List.mem_filter, Prod.exists, exists_and_right,
    exists_eq_right, Dict.mem_entries_iff, isDue_iff]

theorem pairwise_reset (h : ledger.Keyed) (trigger : ResetTrigger) :
    (ledger.reset trigger).1.Pairwise (· < ·) := by
  rw [fst_reset h]
  exact ledger.ascending.sublist (List.filter_sublist.map Prod.fst)

-- Every ledger that comes of requests is one to which the laws of single requests apply.
theorem requests_framed (h : ledger.Keyed) (requests : List Request) :
    let after := ledger.serveAll requests
    after.Keyed ∧ ledger.Carries after ∧
    (∀ r, (Dict.find? after r.id ≠ none → after.create r = (false, after)) ∧
      (Dict.find? after r.id = none → after.create r = (true, Dict.insert after r.id r))) ∧
    (∀ id amount,
      (∀ fault, after.consume id amount = .error fault →
        after.serve (.consume id amount) = after) ∧
      ∀ left next, after.consume id amount = .ok (left, next) →
        (∃ r, Dict.find? after id = some r ∧
          Dict.find? next id = some { r with value := left }) ∧
        ∀ key, key ≠ id → Dict.find? next key = Dict.find? after key) ∧
    ∀ trigger,
      (after.reset trigger).1.Pairwise (· < ·) ∧
      (∀ key, key ∈ (after.reset trigger).1 ↔
        ∃ r, Dict.find? after key = some r ∧ trigger ≠ .never ∧ r.reset = trigger) ∧
      ∀ key, Dict.find? (after.reset trigger).2 key = (Dict.find? after key).map fun r =>
        if trigger ≠ .never ∧ r.reset = trigger then { r with value := r.maximum } else r := by
  intro after
  have hafter : after.Keyed := h.serveAll requests
  refine ⟨hafter, .serveAll ledger requests, fun r => ⟨create_of_found, create_of_new⟩,
    fun id amount => ⟨fun fault hfault => ?_, fun left next => find?_consume⟩,
    fun trigger => ⟨pairwise_reset hafter trigger, fun key => mem_reset hafter, fun key => ?_⟩⟩
  · rw [serve, hfault]
  · rw [reset, Dict.find?_mapValues]
    simp only [isDue_iff]

def charges : Resource where
  id := "charges"
  name := "Charges"
  maximumFormula := "3"
  maximum := 3
  value := 3
  negativeAllowed := false
  reset := .longRest

def focus : Resource := { charges with id := "focus", name := "Focus", reset := .turn }

-- Two charges are spent and another pool is made. No second pool gets the id of the first one, and
-- a long rest gives the charges back and nothing else.
theorem requests_framed_charges :
    let ledger : Ledger := Dict.ofList [("charges", charges)]
    let after := ledger.serveAll [.consume "charges" 2, .create focus]
    ledger.Keyed ∧ after.Keyed ∧
      after.create { charges with maximum := 99 } = (false, after) ∧
      "charges" ∈ (after.reset .longRest).1 ∧ "focus" ∉ (after.reset .longRest).1 ∧
      Dict.find? (after.reset .longRest).2 "charges" = some charges ∧
      Dict.find? (after.reset .longRest).2 "focus" = some focus := by
  intro ledger after
  have hledger : ledger.Keyed := by
    intro key r hfound
    have hlast : Entries.last? key [("charges", charges)] = some r := by
      rw [← Dict.find?_ofList]
      exact hfound
    obtain ⟨rfl, rfl⟩ : key = "charges" ∧ r = charges := by
      simpa using Entries.mem_of_last? hlast
    rfl
  have hcharges : Dict.find? after "charges" = some { charges with value := 1 } := by decide +kernel
  have hfocus : Dict.find? after "focus" = some focus := by decide +kernel
  obtain ⟨hafter, -, hcreate, -, hreset⟩ :=
    requests_framed hledger [.consume "charges" 2, .create focus]
  obtain ⟨-, hids, hpools⟩ := hreset .longRest
  refine ⟨hledger, hafter, (hcreate _).1 ?_, (hids _).2 ?_, fun hmem => ?_, ?_, ?_⟩
  · exact fun hnone => absurd (hcharges.symm.trans hnone) (by simp)
  · exact ⟨_, hcharges, by decide, rfl⟩
  · obtain ⟨r, hr, -, htrigger⟩ := (hids "focus").1 hmem
    obtain rfl := Option.some.inj (hfocus.symm.trans hr)
    cases htrigger
  · exact (hpools "charges").trans (congrArg _ hcharges)
  · exact (hpools "focus").trans (congrArg _ hfocus)

end Tabletop.Ledger
