import Tabletop.Formula.Placeholder
import Tabletop.Proofs.Binary64.Rounding
import Tabletop.Proofs.Dict
import Tabletop.Records

-- The values on record: what is written is what is read, as a number and in place of a reference.
namespace Tabletop

-- Null counts as no value.
def Json.present? : Json → Option Json
  | .null => none
  | j => some j

namespace Records

variable {r : Records} {id k : String} {j : Json} {x : Binary64}

theorem value?_of_find? {members : List (String × Json)} (h : Dict.find? r id = some (.obj members)) :
    r.value? id = (Entries.find? "value" members).bind Json.present? := by
  simp only [value?, h, Option.bind_some, Json.member?]
  cases Entries.find? "value" members with
  | none => rfl
  | some j => cases j <;> rfl

theorem value?_insert_of_ne (h : k ≠ id) (j : Json) :
    Records.value? (Dict.insert r id j) k = r.value? k := by
  simp [value?, h]

theorem find?_setValue : Dict.find? (r.setValue id j) id =
    some (.obj (Entries.insert "value" j (r.fields id))) := by
  simp [setValue]

theorem value?_setValue :
    (r.setValue id j).value? k = if k = id then j.present? else r.value? k := by
  split
  · next heq =>
    subst heq
    rw [value?_of_find? find?_setValue, Entries.find?_insert, if_pos rfl, Option.bind_some]
  · next hne => exact value?_insert_of_ne hne _

-- Further fields leave the value of an object as it is.
theorem value?_merge {fields members : List (String × Json)}
    (hfound : Dict.find? r id = some (.obj members)) (hfields : ∀ f ∈ fields, f.1 ≠ "value") :
    (r.merge id fields).value? k = r.value? k := by
  by_cases hk : k = id
  · subst hk
    have hmembers : r.fields k = members := by rw [Records.fields, hfound]
    obtain ⟨merged, hmerged, hvalue⟩ : ∃ merged,
        Dict.find? (r.merge k fields) k = some (.obj merged) ∧
          Entries.find? "value" merged = Entries.find? "value" members := by
      refine ⟨_, by rw [merge, Dict.find?_insert, if_pos rfl], ?_⟩
      rw [Entries.find?_foldl_insert, Entries.last?_eq_none hfields, Option.none_or, hmembers]
    rw [value?_of_find? hmerged, value?_of_find? hfound, hvalue]
  · exact value?_insert_of_ne hk _

-- Whether the value on record of an operation reads as this number.
def ReadsAs (r : Records) (id : String) (x : Binary64) : Prop :=
  ∃ j y, r.value? id = some j ∧ j.toNumber? = some y ∧ y.same x = true

end Records

/-! Numbers -/

namespace Json

variable {x : Binary64}

theorem eq_of_present? {j j' : Json} (h : j.present? = some j') : j = j' := by
  cases j <;> cases h <;> rfl

theorem ofNumber_of_isFinite (hx : x.isFinite = true) :
    ∃ j y, (ofNumber x).present? = some j ∧ j.toNumber? = some y ∧ y.same x = true := by
  unfold ofNumber
  split
  · next hsmall =>
    rw [Bool.and_eq_true] at hsmall
    exact ⟨_, _, rfl, rfl, Binary64.same_ofInt_toInt hsmall.1⟩
  · exact ⟨_, _, rfl, rfl, Binary64.same_self hx⟩

-- A number that is written reads as itself, but for the sign of a zero.
theorem toNumber?_ofNumber (hx : x.isFinite = true) :
    ∃ y, (ofNumber x).toNumber? = some y ∧ y.same x = true := by
  obtain ⟨j, y, hj, hy, hsame⟩ := ofNumber_of_isFinite hx
  obtain rfl := eq_of_present? hj
  exact ⟨y, hy, hsame⟩

theorem toNumber?_ofReal (x : Binary64) :
    (ofReal x).toNumber? = if x.isFinite then some x else none := by
  rw [ofReal]
  split <;> rfl

theorem ofReal_of_isFinite (hx : x.isFinite = true) :
    ∃ j y, (ofReal x).present? = some j ∧ j.toNumber? = some y ∧ y.same x = true := by
  rw [ofReal, if_pos hx]
  exact ⟨_, _, rfl, rfl, Binary64.same_self hx⟩

-- A document has no form for the other numbers.
theorem ofNumber_of_not_isFinite (hx : x.isFinite = false) : (ofNumber x).present? = none := by
  cases x with
  | finite => cases hx
  | infinite | nan => rfl

theorem ofReal_of_not_isFinite (hx : x.isFinite = false) : (ofReal x).present? = none := by
  rw [ofReal, if_neg (by simp [hx])]
  rfl

end Json

-- What stands in place of a reference to an operation: its number in the form of messages, or the
-- text itself where a text is on record.
theorem Placeholder.resolve?_of_readsAs {r : Records} {id : String} {x : Binary64}
    (hname : isName id = true) (hx : x.isFinite = true) (h : r.ReadsAs id x) :
    ∃ text, resolve? r.value? id = some text ∧
      (text = x.format ∨ r.value? id = some (.str text)) := by
  obtain ⟨j, y, hvalue, hnumber, hsame⟩ := h
  have hformat : y.format = x.format := Binary64.format_congr hx hsame
  have hone : (1 : Binary64).format = "1" := by decide +kernel
  have hzero : (0 : Binary64).format = "0" := by decide +kernel
  rw [resolve?, if_pos hname, hvalue, Option.bind_some]
  cases j with
  | null | arr | obj => cases hnumber
  | int n =>
    have hn : Binary64.ofInt n = y := Option.some.inj hnumber
    exact ⟨_, rfl, .inl (hn ▸ hformat)⟩
  | float z =>
    have hz : z = y := Option.some.inj hnumber
    exact ⟨_, rfl, .inl (hz ▸ hformat)⟩
  | bool b =>
    have hb : (if b then 1 else 0) = y := Option.some.inj hnumber
    refine ⟨_, rfl, .inl (Eq.trans ?_ hformat)⟩
    cases b with
    | true => exact hb ▸ hone.symm
    | false => exact hb ▸ hzero.symm
  | str s => exact ⟨s, rfl, .inr rfl⟩

end Tabletop
