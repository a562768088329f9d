import Tabletop.Proofs.Document.Shape

-- What readers give, as far as it follows from what documents are made of.
namespace Tabletop

-- Whether what is true of a document is true of all that it is made of.
structure Json.Hereditary (D : Json → Prop) : Prop where
  items : ∀ {items}, D (.arr items) → ∀ item ∈ items, D item
  members : ∀ {members}, D (.obj members) → ∀ m ∈ members, D m.2

theorem Json.hereditary_true : Hereditary fun _ => True :=
  ⟨fun _ _ _ => trivial, fun _ _ _ => trivial⟩

namespace Document

variable {α β : Type} {D : Json → Prop} {P : α → Prop} {Q : β → Prop} {reader : Reader α}

-- Whether all that is read from such documents is of some kind.
def Gives (D : Json → Prop) (P : α → Prop) (reader : Reader α) : Prop :=
  ∀ (j : Json) (a : α), D j → reader j = some a → P a

theorem gives_true (reader : Reader α) : Gives D (fun _ => True) reader := fun _ _ _ _ => trivial

theorem gives_dict (hD : Json.Hereditary D) (h : Gives D P reader) :
    Gives D (fun d : Dict α => ∀ k a, d.find? k = some a → P a) (dict reader) := by
  intro j d hj hread k a hfound
  unfold dict at hread
  split at hread
  · next members =>
    obtain ⟨pairs, hpairs, rfl⟩ := Option.map_eq_some_iff.1 hread
    rw [Dict.find?_ofList] at hfound
    obtain ⟨m, hm, hpair⟩ := exists_of_mem_mapM hpairs (Entries.mem_of_last? hfound)
    obtain ⟨a', hvalue, heq⟩ := Option.map_eq_some_iff.1 hpair
    cases heq
    exact h m.2 a (hD.members hj m hm) hvalue
  · cases hread

/-! Records -/

def Fields.All (D : Json → Prop) : Fields → Prop
  | .named members => ∀ m ∈ members, D m.2
  | .placed items => ∀ item ∈ items, D item

-- Whether what is read from such fields is of some kind. The fields that are left are such again.
def FieldsGive (D : Json → Prop) (P : α → Prop) (x : FieldReader α) : Prop :=
  ∀ (fields left : Fields) (a : α), fields.All D → x fields = some (a, left) → P a ∧ left.All D

namespace FieldsGive

theorem pure {a : α} (h : P a) : FieldsGive D P (Pure.pure a) := by
  intro fields left a' hfields hread
  cases hread
  exact ⟨h, hfields⟩

theorem bind {x : FieldReader α} {f : α → FieldReader β} (hx : FieldsGive D P x)
    (hf : ∀ a, P a → FieldsGive D Q (f a)) : FieldsGive D Q (x >>= f) := by
  intro fields left b hfields hread
  obtain ⟨⟨a, between⟩, hfirst, hrest⟩ := Option.bind_eq_some_iff.1 hread
  obtain ⟨ha, hbetween⟩ := hx fields between a hfields hfirst
  exact hf a ha between left b hbetween hrest

theorem next? (names : List String) :
    FieldsGive D (fun found => ∀ j ∈ found, D j) (next? names) := by
  intro fields left found hfields hread
  unfold Document.next? at hread
  split at hread
  · next members =>
    split at hread
    · cases hread
      exact ⟨by simp, hfields⟩
    · next name v hone =>
      cases hread
      have hmem : (name, v) ∈ members :=
        (List.mem_filter.1 (hone ▸ List.mem_singleton_self (name, v))).1
      exact ⟨by simpa using hfields _ hmem, hfields⟩
    · cases hread
  · cases hread
    exact ⟨by simp, hfields⟩
  · cases hread
    simp only [Fields.All, List.forall_mem_cons] at hfields
    exact ⟨by simpa using hfields.1, hfields.2⟩

-- A reader takes nothing from the fields.
theorem lift (h : Gives D P reader) {j : Json} (hj : D j) :
    FieldsGive D P (liftM (reader j) : FieldReader α) := by
  intro fields left a hfields hread
  obtain ⟨a', ha', heq⟩ := Option.bind_eq_some_iff.1 hread
  cases heq
  exact ⟨h j a hj ha', hfields⟩

theorem need {name : String} (h : Gives D P reader) : FieldsGive D P (need name reader) := by
  refine .bind (.next? [name]) fun found hfound => ?_
  cases found with
  | none =>
    intro fields left a hfields hread
    cases hread
  | some j => exact .lift h (hfound j rfl)

theorem orElse {names : List String} {default : α} (hdefault : P default)
    (h : Gives D P reader) : FieldsGive D P (orElse names default reader) := by
  refine .bind (.next? names) fun found hfound => ?_
  cases found with
  | none => exact .pure hdefault
  | some j => exact .lift h (hfound j rfl)

end FieldsGive

theorem gives_record (hD : Json.Hereditary D) {x : FieldReader α} (h : FieldsGive D P x) :
    Gives D P (record x) := by
  intro j a hj hread
  unfold record at hread
  split at hread
  · obtain ⟨⟨a', left⟩, hfields, rfl⟩ := Option.map_eq_some_iff.1 hread
    exact (h (.named _) left a' (hD.members hj) hfields).1
  · split at hread
    · next hfields =>
      cases hread
      exact (h (.placed _) _ a (hD.items hj) hfields).1
    · cases hread
  · cases hread

end Document

end Tabletop
