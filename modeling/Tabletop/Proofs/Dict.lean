import Tabletop.Dict

-- Entries as maps: what is found after an entry was inserted or erased, and that nothing but what
-- is found tells one dictionary from another.
namespace Tabletop

namespace Entries

variable {α : Type u} {key k : String} {value : α} {entries others : List (String × α)}

theorem Ascending.tail {entry : String × α} (h : Ascending (entry :: entries)) :
    Ascending entries :=
  (List.pairwise_cons.1 h).2

theorem find?_eq_none_of_lt (h : ∀ k' ∈ entries.map Prod.fst, k < k') :
    find? k entries = none := by
  induction entries with
  | nil => rfl
  | cons entry rest ih =>
    obtain ⟨k', v'⟩ := entry
    simp only [List.map_cons, List.forall_mem_cons] at h
    rw [find?, if_neg (fun heq => String.lt_irrefl _ (heq ▸ h.1)), ih h.2]

-- No key comes twice.
theorem find?_tail (h : Ascending ((key, value) :: entries)) : find? key entries = none :=
  find?_eq_none_of_lt (List.pairwise_cons.1 h).1

-- What is found below the first key is nothing.
theorem find?_of_lt {entry : String × α} (h : Ascending (entry :: entries)) (hlt : k < entry.1) :
    find? k (entry :: entries) = none := by
  refine find?_eq_none_of_lt ?_
  simp only [List.map_cons, List.forall_mem_cons]
  exact ⟨hlt, fun k' hk' => String.lt_trans hlt ((List.pairwise_cons.1 h).1 k' hk')⟩

theorem find?_insert : find? k (insert key value entries) =
    if k = key then some value else find? k entries := by
  induction entries with
  | nil => simp [insert, find?, eq_comm]
  | cons entry rest ih =>
    obtain ⟨k', v'⟩ := entry
    simp only [insert]
    split
    · next heq =>
      subst heq
      by_cases hk : k = k'
      · simp [find?, hk]
      · simp [find?, hk, Ne.symm hk]
    · next hne =>
      split
      · by_cases hk : k = key
        · simp [find?, hk]
        · simp [find?, hk, Ne.symm hk]
      · by_cases hk : k' = k
        · subst hk
          simp [find?, hne]
        · simp [find?, hk, ih]

-- Of two values that are inserted under one key, the last one is all that counts.
theorem insert_insert (value other : α) (entries : List (String × α)) :
    insert key other (insert key value entries) = insert key other entries := by
  induction entries with
  | nil => simp [insert]
  | cons entry entries ih =>
    obtain ⟨k', v'⟩ := entry
    by_cases hk : k' = key
    · simp [insert, hk]
    · by_cases hlt : key < k'
      · simp [insert, hk, hlt]
      · simp [insert, hk, hlt, ih]

theorem find?_erase (h : Ascending entries) : find? k (erase key entries) =
    if k = key then none else find? k entries := by
  induction entries with
  | nil => simp [erase, find?]
  | cons entry rest ih =>
    obtain ⟨k', v'⟩ := entry
    simp only [erase]
    split
    · next heq =>
      subst heq
      by_cases hk : k = k'
      · subst hk
        simp [find?_tail h]
      · simp [find?, hk, Ne.symm hk]
    · next hne =>
      by_cases hk : k' = k
      · subst hk
        simp [find?, hne]
      · simp [find?, hk, ih h.tail]

theorem ne_of_find?_eq_none {entry : String × α} (h : find? k entries = none)
    (hentry : entry ∈ entries) : entry.1 ≠ k := by
  induction entries with
  | nil => cases hentry
  | cons first rest ih =>
    obtain ⟨k', v'⟩ := first
    by_cases hk : k' = k
    · simp [find?, hk] at h
    · rw [find?, if_neg hk] at h
      obtain rfl | hrest := List.mem_cons.1 hentry
      · exact hk
      · exact ih h hrest

theorem forall_mem_insert {P : α → Prop} (hvalue : P value) (h : ∀ entry ∈ entries, P entry.2) :
    ∀ entry ∈ insert key value entries, P entry.2 := by
  induction entries with
  | nil => simpa [insert] using hvalue
  | cons entry entries ih =>
    rw [List.forall_mem_cons] at h
    rw [insert]
    split
    · exact List.forall_mem_cons.2 ⟨hvalue, h.2⟩
    · split
      · exact List.forall_mem_cons.2 ⟨hvalue, List.forall_mem_cons.2 h⟩
      · exact List.forall_mem_cons.2 ⟨h.1, ih h.2⟩

theorem mem_iff_find? (h : Ascending entries) :
    (key, value) ∈ entries ↔ find? key entries = some value := by
  induction entries with
  | nil => simp [find?]
  | cons entry entries ih =>
    obtain ⟨k', v'⟩ := entry
    rw [List.mem_cons, ih h.tail, find?]
    by_cases hk : k' = key
    · subst hk
      simp [find?_tail h, eq_comm]
    · simp [hk, Ne.symm hk]

theorem eq_of_find?_eq (hentries : Ascending entries) (hothers : Ascending others)
    (h : ∀ k, find? k entries = find? k others) : entries = others := by
  induction entries generalizing others with
  | nil =>
    cases others with
    | nil => rfl
    | cons entry others =>
      have hfound := h entry.1
      simp [find?] at hfound
  | cons entry entries ih =>
    obtain ⟨k₁, v₁⟩ := entry
    cases others with
    | nil =>
      have hfound := h k₁
      simp [find?] at hfound
    | cons entry others =>
      obtain ⟨k₂, v₂⟩ := entry
      -- The smaller of two different first keys would be found on one side only.
      have hkey : k₁ = k₂ := by
        refine Decidable.byContradiction fun hne => ?_
        by_cases hlt : k₁ < k₂
        · have hfound := h k₁
          rw [find?_of_lt hothers hlt] at hfound
          simp [find?] at hfound
        · have hgt : k₂ < k₁ := by
            refine Decidable.byContradiction fun hnot => hne ?_
            exact String.le_antisymm (String.not_lt.1 hnot) (String.not_lt.1 hlt)
          have hfound := h k₂
          rw [find?_of_lt hentries hgt] at hfound
          simp [find?] at hfound
      subst hkey
      have hvalue : v₁ = v₂ := by simpa [find?] using h k₁
      subst hvalue
      have hrest : entries = others := by
        refine ih hentries.tail hothers.tail fun k => ?_
        by_cases hk : k₁ = k
        · subst hk
          rw [find?_tail hentries, find?_tail hothers]
        · simpa [find?, hk] using h k
      rw [hrest]

theorem insert_of_find? (h : Ascending entries) (hfound : find? key entries = some value) :
    insert key value entries = entries := by
  refine eq_of_find?_eq (ascending_insert h) h fun k => ?_
  rw [find?_insert]
  split
  · next hk => rw [hk, hfound]
  · rfl

/-! Entries from lists -/

variable {pairs : List (String × α)}

-- The value of the last pair with this key.
def last? (key : String) : List (String × α) → Option α
  | [] => none
  | (k, v) :: rest => (last? key rest).or (if k = key then some v else none)

theorem last?_append (others : List (String × α)) :
    last? k (pairs ++ others) = (last? k others).or (last? k pairs) := by
  induction pairs with
  | nil => simp [last?]
  | cons pair pairs ih => rw [List.cons_append, last?, ih, last?, Option.or_assoc]

theorem last?_eq_none (h : ∀ pair ∈ pairs, pair.1 ≠ k) : last? k pairs = none := by
  induction pairs with
  | nil => rfl
  | cons pair pairs ih =>
    simp only [List.forall_mem_cons] at h
    rw [last?, ih h.2, if_neg h.1]
    rfl

theorem mem_of_last? (h : last? k pairs = some value) : (k, value) ∈ pairs := by
  induction pairs with
  | nil => cases h
  | cons pair pairs ih =>
    rw [last?, Option.or_eq_some_iff] at h
    obtain h | ⟨-, h⟩ := h
    · exact List.mem_cons_of_mem _ (ih h)
    · split at h
      · next hk =>
        cases h
        exact hk ▸ List.mem_cons_self
      · cases h

theorem last?_map {β : Type v} (key : β → String) (val : β → α) (xs : List β) :
    last? k (xs.map fun x => (key x, val x)) =
      (xs.filter fun x => decide (key x = k)).getLast?.map val := by
  induction xs with
  | nil => rfl
  | cons x xs ih =>
    rw [List.map_cons, last?, ih]
    by_cases hx : key x = k
    · rw [if_pos hx, List.filter_cons_of_pos (by simpa using hx), List.getLast?_cons]
      cases (xs.filter fun x => decide (key x = k)).getLast? <;> rfl
    · rw [if_neg hx, List.filter_cons_of_neg (by simpa using hx), Option.or_none]

theorem ascending_foldl_insert (h : Ascending entries) :
    Ascending (pairs.foldl (fun entries (k, v) => insert k v entries) entries) := by
  induction pairs generalizing entries with
  | nil => exact h
  | cons pair pairs ih => exact ih (ascending_insert h)

theorem ascending_ofList (pairs : List (String × α)) : Ascending (ofList pairs) :=
  ascending_foldl_insert List.Pairwise.nil

theorem find?_foldl_insert :
    find? k (pairs.foldl (fun entries (k, v) => insert k v entries) entries) =
      (last? k pairs).or (find? k entries) := by
  induction pairs generalizing entries with
  | nil => rfl
  | cons pair pairs ih =>
    obtain ⟨k', v'⟩ := pair
    rw [List.foldl_cons, ih, find?_insert, last?, Option.or_assoc]
    by_cases hk : k = k'
    · simp [hk]
    · simp [hk, Ne.symm hk]

theorem find?_ofList : find? k (ofList pairs) = last? k pairs := by
  rw [ofList, find?_foldl_insert]
  exact Option.or_none

-- At most one entry has a given key.
theorem filter_key (h : Ascending entries) : entries.filter (fun entry => k == entry.1) =
    (find? k entries).toList.map fun v => (k, v) := by
  induction entries with
  | nil => rfl
  | cons entry entries ih =>
    obtain ⟨k', v'⟩ := entry
    by_cases hk : k' = k
    · subst hk
      have hrest : entries.filter (fun entry => k' == entry.1) = [] := by
        rw [ih h.tail, find?_tail h]
        rfl
      simp [find?, hrest]
    · simpa [find?, hk, Ne.symm hk] using ih h.tail

-- Entries that ascend already are listed as they are.
theorem ofList_of_ascending (h : Ascending entries) : ofList entries = entries := by
  refine eq_of_find?_eq (ascending_ofList entries) h fun k => ?_
  rw [find?_ofList]
  induction entries with
  | nil => rfl
  | cons entry entries ih =>
    obtain ⟨k', v'⟩ := entry
    rw [last?, ih h.tail, find?]
    by_cases hk : k' = k
    · subst hk
      simp [find?_tail h]
    · simp [hk]

end Entries

namespace Dict

variable {α : Type u} {d e : Dict α} {key k : String} {value other : α}

@[simp] theorem find?_insert :
    (d.insert key value).find? k = if k = key then some value else d.find? k :=
  Entries.find?_insert

@[simp] theorem contains_insert :
    (d.insert key value).contains k = (k == key || d.contains k) := by
  rw [contains, find?_insert]
  by_cases h : k = key <;> simp [h, contains]

@[simp] theorem find?_erase : (d.erase key).find? k = if k = key then none else d.find? k :=
  Entries.find?_erase d.ascending

theorem eq_of_find?_eq (h : ∀ k, d.find? k = e.find? k) : d = e :=
  ext (Entries.eq_of_find?_eq d.ascending e.ascending h)

theorem entries_foldl_insert (pairs : List (String × α)) (d : Dict α) :
    (pairs.foldl (fun d (k, v) => d.insert k v) d).entries =
      pairs.foldl (fun entries (k, v) => Entries.insert k v entries) d.entries := by
  induction pairs generalizing d with
  | nil => rfl
  | cons pair pairs ih => exact ih (d.insert pair.1 pair.2)

theorem find?_ofList (pairs : List (String × α)) :
    (ofList pairs).find? k = Entries.last? k pairs := by
  rw [find?, ofList, entries_foldl_insert]
  exact Entries.find?_ofList

theorem find?_foldl_insert (pairs : List (String × α)) (d : Dict α) :
    (pairs.foldl (fun d (k, v) => d.insert k v) d).find? k =
      (Entries.last? k pairs).or (d.find? k) := by
  rw [find?, entries_foldl_insert]
  exact Entries.find?_foldl_insert

theorem ofList_entries (d : Dict α) : ofList d.entries = d :=
  ext ((entries_foldl_insert d.entries empty).trans (Entries.ofList_of_ascending d.ascending))

theorem mem_entries_iff : (k, value) ∈ d.entries ↔ d.find? k = some value :=
  Entries.mem_iff_find? d.ascending

@[simp] theorem find?_mapValues {β : Type v} (f : String → α → β) :
    (d.mapValues f).find? k = (d.find? k).map (f k) := by
  have hentries : ∀ entries : List (String × α),
      Entries.find? k (entries.map fun (k, v) => (k, f k v)) = (Entries.find? k entries).map (f k) := by
    intro entries
    induction entries with
    | nil => rfl
    | cons entry entries ih =>
      by_cases hk : entry.1 = k
      · simp [Entries.find?, hk]
      · simp [Entries.find?, hk, ih]
  exact hentries d.entries

end Dict

end Tabletop
