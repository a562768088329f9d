import Mathlib.Data.List.Induction
import Tabletop.Ledger
import Tabletop.Proofs.Binary64.Rounding
import Tabletop.Proofs.Dict

-- A pool that owes nothing stays between nothing and its maximum, whatever is asked of the ledger,
-- until NaN is taken from it. NaN is neither below zero nor more than what is left, so no guard
-- refuses it, and the pool is NaN from then on until it is filled again.
namespace Tabletop

-- What a ledger can be asked for.
inductive Request where
  | create (resource : Resource)
  | consume (id : String) (amount : Binary64)
  | reset (trigger : ResetTrigger)

namespace Ledger

-- The ledger after a request. One that is refused changes nothing.
def serve (ledger : Ledger) : Request → Ledger
  | .create resource => (ledger.create resource).2
  | .consume id amount =>
    match ledger.consume id amount with
    | .ok (_, after) => after
    | .error _ => ledger
  | .reset trigger => (ledger.reset trigger).2

def serveAll (ledger : Ledger) (requests : List Request) : Ledger := requests.foldl serve ledger

end Ledger

namespace Resource

-- What the pool at a key holds after a request.
def valueAfter (r : Resource) (key : String) : Request → Binary64
  | .create _ => r.value
  | .consume id amount =>
    if id = key ∧ ¬ amount < 0 ∧ (r.negativeAllowed = true ∨ ¬ r.value < amount) then
      r.value - amount
    else r.value
  | .reset trigger => if Ledger.isDue trigger r then r.maximum else r.value

-- Whether a pool holds something between nothing and its maximum.
def Bounded (r : Resource) : Prop := 0 ≤ r.value ∧ r.value ≤ r.maximum

end Resource

namespace Ledger

variable {ledger : Ledger} {key : String} {r : Resource} {requests : List Request}

-- A request changes what a pool holds, and nothing else about it.
theorem find?_serve (hfound : Dict.find? ledger key = some r) (request : Request) :
    Dict.find? (ledger.serve request) key =
      some { r with value := r.valueAfter key request } := by
  cases request with
  | create resource =>
    simp only [serve, create, Resource.valueAfter]
    split
    · exact hfound
    · next hnew =>
      have hne : key ≠ resource.id := by
        rintro rfl
        simp [Dict.contains, hfound] at hnew
      simpa [hne] using hfound
  | consume id amount =>
    simp only [serve, consume, Resource.valueAfter]
    by_cases hid : id = key
    · subst hid
      rw [hfound]
      dsimp only
      by_cases hbelow : amount < 0
      · simp [hbelow, hfound]
      · by_cases hmore : (!r.negativeAllowed && decide (r.value < amount)) = true
        · rw [if_neg hbelow, if_pos hmore, if_neg (by simpa [hbelow] using hmore)]
          exact hfound
        · rw [if_neg hbelow, if_neg hmore, if_pos (by simpa [hbelow, imp_iff_not_or] using hmore)]
          simp
    · rw [if_neg (by simp [hid])]
      split
      · next hconsumed =>
        repeat' split at hconsumed
        all_goals cases hconsumed
        simpa [Ne.symm hid] using hfound
      · exact hfound
  | reset trigger =>
    simp only [serve, reset, Dict.find?_mapValues, hfound, Option.map_some, Resource.valueAfter]
    split <;> rfl

-- NaN was taken from the pool of `r`, and nothing has filled it since.
def Spoiled (r : Resource) (requests : List Request) : Prop :=
  ∃ earlier later, requests = earlier ++ .consume r.id .nan :: later ∧
    ∀ trigger, .reset trigger ∈ later → isDue trigger r = false

theorem not_spoiled_nil : ¬ Spoiled r [] := by
  rintro ⟨earlier, later, heq, -⟩
  simp at heq

theorem spoiled_concat {request : Request} : Spoiled r (requests ++ [request]) ↔
    request = .consume r.id .nan ∨
      (Spoiled r requests ∧ ∀ trigger, request = .reset trigger → isDue trigger r = false) := by
  constructor
  · rintro ⟨earlier, later, heq, hlater⟩
    rcases List.eq_nil_or_concat later with rfl | ⟨front, last, rfl⟩
    · obtain ⟨-, hlast⟩ := List.append_inj' heq rfl
      exact .inl (List.singleton_inj.1 hlast)
    · have hsplit : requests = earlier ++ .consume r.id .nan :: front ∧ [request] = [last] := by
        refine List.append_inj' ?_ rfl
        simpa using heq
      obtain ⟨rfl, hlast⟩ := hsplit
      obtain rfl := List.singleton_inj.1 hlast
      refine .inr ⟨⟨earlier, front, rfl, fun trigger hmem => ?_⟩, fun trigger hreset => ?_⟩
      · exact hlater trigger (by simp [hmem])
      · exact hlater trigger (by simp [hreset])
  · rintro (rfl | ⟨⟨earlier, later, rfl, hlater⟩, hrequest⟩)
    · exact ⟨requests, [], rfl, fun trigger hmem => absurd hmem (by simp)⟩
    · refine ⟨earlier, later ++ [request], by simp, fun trigger hmem => ?_⟩
      rcases List.mem_append.1 hmem with hmem | hmem
      · exact hlater trigger hmem
      · exact hrequest trigger (List.mem_singleton.1 hmem).symm

end Ledger

namespace Resource

variable {r : Resource} {key : String}

theorem Bounded.value_ne_nan (h : r.Bounded) : r.value ≠ .nan := by
  intro hnan
  simp [Bounded, hnan] at h

-- A pool between its bounds stays there, unless NaN is taken from it.
theorem Bounded.valueAfter {request : Request} (h : r.Bounded)
    (hfinite : r.maximum.isFinite = true) (howing : r.negativeAllowed = false)
    (hrequest : request ≠ .consume key .nan) :
    Bounded { r with value := r.valueAfter key request } := by
  have hvalue : r.value.isFinite = true := Binary64.isFinite_of_between hfinite h.1 h.2
  cases request with
  | create resource => exact h
  | consume id amount =>
    simp only [Resource.valueAfter, howing]
    split
    · next htaken =>
      obtain ⟨rfl, hbelow, hmore⟩ := htaken
      have hamount : amount ≠ .nan := fun hnan => hrequest (hnan ▸ rfl)
      have hzero : (0 : Binary64) ≠ .nan := by decide +kernel
      obtain ⟨hnonneg, hleft⟩ := Binary64.sub_between hvalue
        (Binary64.le_of_not_lt hamount hzero hbelow)
        (Binary64.le_of_not_lt h.value_ne_nan hamount (by simpa using hmore))
      exact ⟨hnonneg, Binary64.le_trans hleft h.2⟩
    · exact h
  | reset trigger =>
    simp only [Resource.valueAfter]
    split
    · exact ⟨Binary64.le_trans h.1 h.2, Binary64.le_refl hfinite⟩
    · exact h

-- No guard refuses NaN.
theorem valueAfter_of_nan : r.valueAfter key (.consume key .nan) = .nan := by
  simp [Resource.valueAfter]

-- What is NaN stays so until the pool is filled.
theorem valueAfter_eq_nan {request : Request} (h : r.value = .nan)
    (hkept : ∀ trigger, request = .reset trigger → Ledger.isDue trigger r = false) :
    r.valueAfter key request = .nan := by
  cases request with
  | create resource => exact h
  | consume id amount => simp [Resource.valueAfter, h]
  | reset trigger => simp [Resource.valueAfter, h, hkept trigger rfl]

end Resource

namespace Ledger

variable {ledger : Ledger} {r : Resource}

theorem serveAll_concat (requests : List Request) (request : Request) :
    ledger.serveAll (requests ++ [request]) = (ledger.serveAll requests).serve request := by
  simp [serveAll]

-- By induction on the requests from the first one on, so that the last one is the step.
theorem find?_serveAll (hfound : Dict.find? ledger r.id = some r) (hbounded : r.Bounded)
    (hfinite : r.maximum.isFinite = true) (howing : r.negativeAllowed = false)
    (requests : List Request) :
    ∃ value, Dict.find? (ledger.serveAll requests) r.id = some { r with value } ∧
      (Spoiled r requests → value = .nan) ∧
      (¬ Spoiled r requests → Resource.Bounded { r with value }) := by
  induction requests using List.reverseRecOn with
  | nil =>
    exact ⟨r.value, hfound, fun hspoiled => absurd hspoiled not_spoiled_nil, fun _ => hbounded⟩
  | append_singleton requests request ih =>
    obtain ⟨value, hvalue, hspoiled, hsound⟩ := ih
    refine ⟨Resource.valueAfter { r with value } r.id request, ?_, ?_, ?_⟩
    · rw [serveAll_concat]
      exact find?_serve hvalue request
    · rw [spoiled_concat]
      rintro (rfl | ⟨hbefore, hkept⟩)
      · exact Resource.valueAfter_of_nan
      · exact Resource.valueAfter_eq_nan (hspoiled hbefore) hkept
    · rw [spoiled_concat, not_or]
      rintro ⟨hrequest, hafter⟩
      by_cases hbefore : Spoiled r requests
      · -- The pool was NaN, and this request has filled it.
        have hfilled : ∃ trigger, request = .reset trigger ∧ isDue trigger r = true := by
          by_contra hnone
          refine hafter ⟨hbefore, fun trigger hreset => ?_⟩
          exact Bool.eq_false_iff.2 fun hdue => hnone ⟨trigger, hreset, hdue⟩
        obtain ⟨trigger, rfl, hdue⟩ := hfilled
        have hmaximum : Resource.valueAfter { r with value } r.id (.reset trigger) = r.maximum :=
          if_pos hdue
        rw [hmaximum]
        exact ⟨Binary64.le_trans hbounded.1 hbounded.2, Binary64.le_refl hfinite⟩
      · exact (hsound hbefore).valueAfter hfinite howing hrequest

theorem bounded_iff_unspoiled (hnew : Dict.find? ledger r.id = none)
    (howing : r.negativeAllowed = false) (hfull : r.value = r.maximum)
    (hfinite : r.maximum.isFinite = true) (hnonneg : 0 ≤ r.maximum) (requests : List Request) :
    ∃ value, Dict.find? (ledger.serveAll (.create r :: requests)) r.id = some { r with value } ∧
      (0 ≤ value ∧ value ≤ r.maximum ↔ ¬ Spoiled r requests) ∧
      (Spoiled r requests → value = .nan) := by
  have hfound : Dict.find? (ledger.serve (.create r)) r.id = some r := by
    simp [serve, create, Dict.contains, hnew]
  have hbounded : r.Bounded := by
    rw [Resource.Bounded, hfull]
    exact ⟨hnonneg, Binary64.le_refl hfinite⟩
  obtain ⟨value, hvalue, hspoiled, hsound⟩ :=
    find?_serveAll hfound hbounded hfinite howing requests
  refine ⟨value, hvalue, ⟨fun hbetween hmarked => ?_, hsound⟩, hspoiled⟩
  simp [hspoiled hmarked] at hbetween

-- Luck for three bets, and new luck every turn.
def luck : Resource where
  id := "pool"
  name := "Luck"
  maximumFormula := "3"
  maximum := 3
  value := 3
  negativeAllowed := false
  reset := .turn

-- A bet of NaN spoils the pool for the next bet, and a new turn mends it.
theorem bounded_iff_unspoiled_luck :
    (∃ value, Dict.find? (serveAll Dict.empty [.create luck, .consume "pool" 2,
        .consume "pool" .nan, .consume "pool" 1]) "pool" = some { luck with value } ∧
      value = .nan ∧ ¬ (0 ≤ value ∧ value ≤ 3)) ∧
    (∃ value, Dict.find? (serveAll Dict.empty [.create luck, .consume "pool" .nan,
        .reset .turn, .consume "pool" 1]) "pool" = some { luck with value } ∧
      0 ≤ value ∧ value ≤ 3) := by
  have hnew : Dict.find? (Dict.empty : Ledger) luck.id = none := rfl
  have hfinite : luck.maximum.isFinite = true := by decide +kernel
  have hnonneg : 0 ≤ luck.maximum := by decide +kernel
  refine ⟨?_, ?_⟩
  · obtain ⟨value, hvalue, hbounds, hnan⟩ := bounded_iff_unspoiled hnew rfl rfl hfinite hnonneg
      [.consume "pool" 2, .consume "pool" .nan, .consume "pool" 1]
    have hspoiled : Spoiled luck [.consume "pool" 2, .consume "pool" .nan, .consume "pool" 1] :=
      ⟨[.consume "pool" 2], [.consume "pool" 1], rfl, by simp⟩
    exact ⟨value, hvalue, hnan hspoiled, fun hbetween => hbounds.1 hbetween hspoiled⟩
  · obtain ⟨value, hvalue, hbounds, -⟩ := bounded_iff_unspoiled hnew rfl rfl hfinite hnonneg
      [.consume "pool" .nan, .reset .turn, .consume "pool" 1]
    refine ⟨value, hvalue, hbounds.2 ?_⟩
    have hturn : ¬ Spoiled luck ([.consume "pool" .nan] ++ [.reset .turn]) := by
      rw [spoiled_concat]
      rintro (heq | ⟨-, hkept⟩)
      · cases heq
      · exact absurd (hkept .turn rfl) (by decide)
    have hlast : ¬ Spoiled luck
        (([.consume "pool" .nan] ++ [.reset .turn]) ++ [.consume "pool" 1]) := by
      rw [spoiled_concat]
      rintro (heq | ⟨hbefore, -⟩)
      · exact absurd (Request.consume.inj heq).2 (by decide +kernel)
      · exact hturn hbefore
    exact hlast

end Ledger

end Tabletop
