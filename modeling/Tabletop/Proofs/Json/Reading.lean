import Tabletop.Proofs.Json.Text

-- A document reads back from its text exactly if it is not nested too deep.
namespace Tabletop.Json

theorem isSpace_of_mem_gap {k : Nat} : ∀ c ∈ gap k, isSpace c = true := by
  simp only [gap, List.forall_mem_cons, List.mem_replicate]
  exact ⟨by decide, by rintro c ⟨-, rfl⟩; decide⟩

theorem skipSpace_append {blanks : List Char} (h : ∀ c ∈ blanks, isSpace c = true)
    (s : List Char) : skipSpace (blanks ++ s) = skipSpace s := by
  induction blanks with
  | nil => rfl
  | cons c blanks ih =>
    simp only [List.forall_mem_cons] at h
    simpa [skipSpace, h.1] using ih h.2

@[simp] theorem skipSpace_gap (k : Nat) (s : List Char) :
    skipSpace (gap k ++ s) = skipSpace s :=
  skipSpace_append isSpace_of_mem_gap s

theorem skipSpace_cons {c : Char} (hc : isSpace c = false) (s : List Char) :
    skipSpace (c :: s) = c :: s := by
  simp [skipSpace, hc]

-- Blanks in front of a value are passed over.
theorem value?_blanks {blanks : List Char} (h : ∀ c ∈ blanks, isSpace c = true) (n d : Nat)
    (s : List Char) : value? n d (blanks ++ s) = value? n d s := by
  cases n with
  | zero => simp only [value?]
  | succ n => simp only [value?, skipSpace_append h]

theorem value?_blank (n d : Nat) (s : List Char) : value? n d (' ' :: s) = value? n d s := by
  have hblank : ∀ c ∈ [' '], isSpace c = true := by simp [isSpace]
  exact value?_blanks hblank n d s

theorem items?_gap (n d k : Nat) (s : List Char) : items? n d (gap k ++ s) = items? n d s := by
  cases n with
  | zero => simp only [items?]
  | succ n => simp only [items?, value?_blanks isSpace_of_mem_gap]

theorem members?_gap (n d k : Nat) (s : List Char) :
    members? n d (gap k ++ s) = members? n d s := by
  cases n with
  | zero => simp only [members?]
  | succ n => simp only [members?, skipSpace_gap]

/-! Values by their first characters -/

variable {n d k : Nat} {s rest left tail : List Char}

theorem value?_bool (b : Bool) : value? (n + 1) d
    ((if b then ['t', 'r', 'u', 'e'] else ['f', 'a', 'l', 's', 'e']) ++ rest) =
      some (.bool b, rest) := by
  cases b <;> rfl

theorem value?_null : value? (n + 1) d (['n', 'u', 'l', 'l'] ++ rest) = some (.null, rest) := rfl

theorem value?_quote (s : String) :
    value? (n + 1) d ((quote s).toList ++ rest) = some (.str s, rest) := by
  rw [toList_quote, List.cons_append, List.append_assoc]
  show Option.map _ (stringBody? _ [] _) = _
  rw [List.singleton_append, stringBody?_quote]
  rfl

theorem value?_array {c : Char} (hs : skipSpace s = c :: left) (hc : c ≠ ']') :
    value? (n + 1) d ('[' :: s) = if d = 0 then none else
      (items? n (d - 1) (c :: left)).map fun (items, rest) => (.arr items, rest) := by
  have hopening : skipSpace ('[' :: s) = '[' :: s := skipSpace_cons (by decide) s
  simp only [value?, hopening, hs]
  split
  · rfl
  · split
    · next heq => cases heq; exact absurd rfl hc
    · rfl

theorem value?_object {c : Char} (hs : skipSpace s = c :: left) (hc : c ≠ '\x7d') :
    value? (n + 1) d ('\x7b' :: s) = if d = 0 then none else
      (members? n (d - 1) (c :: left)).map fun (members, rest) => (.obj members, rest) := by
  have hopening : skipSpace ('\x7b' :: s) = '\x7b' :: s := skipSpace_cons (by decide) s
  simp only [value?, hopening, hs]
  split
  · rfl
  · split
    · next heq => cases heq; exact absurd rfl hc
    · rfl

theorem value?_number {j : Json} (h : number? s = some (j, left)) :
    value? (n + 1) d s = some (j, left) := by
  obtain ⟨c, s, rfl, hc⟩ := number?_head h
  obtain ⟨hspace, -, hnull, htrue, hfalse, hquote, harray, hobject⟩ := not_opening_of_number hc
  rw [← h]
  simp only [value?, skipSpace_cons hspace]
  split <;> simp_all

/-! Items and members -/

variable {p : Prop} [Decidable p]

theorem items?_last {item : Json} (h : value? n d s = if p then some (item, left) else none)
    (hleft : skipSpace left = ']' :: rest) :
    items? (n + 1) d s = if p then some ([item], rest) else none := by
  by_cases hp : p <;> simp [items?, h, hp, hleft]

theorem items?_more {item : Json}
    (h : value? n d s = if p then some (item, ',' :: left) else none) :
    items? (n + 1) d s = if p then
      (items? n d left).map fun (items, rest) => (item :: items, rest) else none := by
  have hcomma : skipSpace (',' :: left) = ',' :: left := skipSpace_cons (by decide) left
  by_cases hp : p
  · simp only [items?, h, if_pos hp, bind, Option.bind_some, hcomma]
    cases items? n d left <;> rfl
  · simp [items?, h, hp]

-- A line of an object starts with the quotation mark of its key.
theorem skipSpace_line (key : String) (s : List Char) :
    skipSpace ((quote key).toList ++ ':' :: ' ' :: s) =
      '"' :: (key.toList.flatMap escape ++ '"' :: ':' :: ' ' :: s) := by
  rw [toList_quote, List.cons_append, List.append_assoc, List.singleton_append]
  exact skipSpace_cons (by decide) _

theorem skipSpace_colon (s : List Char) : skipSpace (':' :: s) = ':' :: s :=
  skipSpace_cons (by decide) s

theorem members?_last {key : String} {value : Json}
    (h : value? n d s = if p then some (value, left) else none)
    (hleft : skipSpace left = '\x7d' :: rest) :
    members? (n + 1) d ((quote key).toList ++ ':' :: ' ' :: s) =
      if p then some ([(key, value)], rest) else none := by
  have hkey := stringBody?_quote key (':' :: ' ' :: s)
  simp only [members?, skipSpace_line, hkey, bind, Option.bind_some, skipSpace_colon,
    value?_blank, h]
  by_cases hp : p
  · simp only [if_pos hp, Option.bind_some, hleft]
    rfl
  · simp only [if_neg hp]
    rfl

theorem members?_more {key : String} {value : Json}
    (h : value? n d s = if p then some (value, ',' :: left) else none) :
    members? (n + 1) d ((quote key).toList ++ ':' :: ' ' :: s) = if p then
      (members? n d left).map fun (members, rest) => ((key, value) :: members, rest)
      else none := by
  have hkey := stringBody?_quote key (':' :: ' ' :: s)
  have hcomma : skipSpace (',' :: left) = ',' :: left := skipSpace_cons (by decide) left
  simp only [members?, skipSpace_line, hkey, bind, Option.bind_some, skipSpace_colon,
    value?_blank, h]
  by_cases hp : p
  · simp only [if_pos hp, Option.bind_some, hcomma]
    cases members? n d left <;> rfl
  · simp only [if_neg hp]
    rfl

-- Brackets take one level of the depth that is left.
theorem if_level {α β : Type} (f : α → β) (a : α) (depth d : Nat) :
    (if d = 0 then none else (if depth ≤ d - 1 then some a else none).map f) =
      if depth + 1 ≤ d then some (f a) else none := by
  by_cases hd : d = 0
  · simp [hd]
  · by_cases hdepth : depth + 1 ≤ d
    · rw [if_neg hd, if_pos (by omega), if_pos hdepth, Option.map_some]
    · rw [if_neg hd, if_neg (by omega), if_neg hdepth, Option.map_none]

-- Neighbours take the levels of the deeper one.
theorem if_max {α β : Type} (f : α → β) (a : α) (first others d : Nat) :
    (if first ≤ d then (if others ≤ d then some a else none).map f else none) =
      if max first others ≤ d then some (f a) else none := by
  by_cases hfirst : first ≤ d
  · by_cases hothers : others ≤ d
    · rw [if_pos hfirst, if_pos hothers, if_pos (Nat.max_le.2 ⟨hfirst, hothers⟩),
        Option.map_some]
    · rw [if_pos hfirst, if_neg hothers, if_neg fun hmax => hothers (Nat.max_le.1 hmax).2,
        Option.map_none]
  · rw [if_neg hfirst, if_neg fun hmax => hfirst (Nat.max_le.1 hmax).1]

/-! Whole texts -/

-- What n steps are enough for. Two are set aside for each character of the text, as an item of
-- an array takes a step as an item and a step as a value.
structure Reads (n : Nat) : Prop where
  value : ∀ (j : Json) (k d : Nat) (rest : List Char), j.Legible →
    2 * (j.indented k).toList.length < n → Stops rest →
    value? n d ((j.indented k).toList ++ rest) =
      if j.depth ≤ d then some (j, rest) else none
  items : ∀ (item : Json) (items : List Json) (k d : Nat) (tail rest : List Char),
    LegibleItems (item :: items) →
    2 * (joined k (indentedItems k (item :: items))).length + 2 ≤ n →
    skipSpace tail = ']' :: rest → Stops tail →
    items? n d (joined k (indentedItems k (item :: items)) ++ tail) =
      if depthItems (item :: items) ≤ d then some (item :: items, rest) else none
  members : ∀ (key : String) (value : Json) (members : List (String × Json)) (k d : Nat)
    (tail rest : List Char), LegibleMembers ((key, value) :: members) →
    2 * (joined k (indentedMembers k ((key, value) :: members))).length + 2 ≤ n →
    skipSpace tail = '\x7d' :: rest → Stops tail →
    members? n d (joined k (indentedMembers k ((key, value) :: members)) ++ tail) =
      if depthMembers ((key, value) :: members) ≤ d then some ((key, value) :: members, rest)
      else none

theorem stops_cons {c : Char} (hc : c = ',' ∨ c = '\n') (s : List Char) : Stops (c :: s) := by
  intro c' hc'
  obtain rfl : c = c' := by simpa using hc'
  obtain rfl | rfl := hc <;> decide

theorem Reads.array (h : Reads n) {item : Json} {items : List Json}
    (hitems : LegibleItems (item :: items))
    (hn : 2 * ((Json.arr (item :: items)).indented k).toList.length < n + 1) :
    value? (n + 1) d (((Json.arr (item :: items)).indented k).toList ++ rest) =
      if (Json.arr (item :: items)).depth ≤ d then some (.arr (item :: items), rest)
      else none := by
  obtain ⟨c, t, hhead, hspace, hc⟩ := indented_head hitems.1 (k + 2)
  obtain ⟨t', hjoined⟩ := joined_head (k + 2) (item.indented (k + 2))
    (indentedItems (k + 2) items)
  rw [indented_arr_cons] at hn ⊢
  simp only [List.length_cons, List.length_append] at hn
  have hread := h.items item items (k + 2) (d - 1) (gap k ++ ']' :: rest) rest hitems
    (by omega) (by rw [skipSpace_gap]; exact skipSpace_cons (by decide) _)
    (stops_cons (.inr rfl) _)
  simp only [indentedItems, hjoined, hhead, List.cons_append, List.append_assoc,
    List.nil_append] at hread ⊢
  rw [value?_array (by rw [skipSpace_gap, skipSpace_cons hspace]) hc, hread, depth]
  exact if_level _ _ _ _

theorem Reads.object (h : Reads n) {key : String} {value : Json}
    {members : List (String × Json)} (hmembers : LegibleMembers ((key, value) :: members))
    (hn : 2 * ((Json.obj ((key, value) :: members)).indented k).toList.length < n + 1) :
    value? (n + 1) d (((Json.obj ((key, value) :: members)).indented k).toList ++ rest) =
      if (Json.obj ((key, value) :: members)).depth ≤ d then
        some (.obj ((key, value) :: members), rest)
      else none := by
  obtain ⟨t, hjoined⟩ := joined_head (k + 2)
    (quote key ++ ": " ++ value.indented (k + 2)) (indentedMembers (k + 2) members)
  rw [indented_obj_cons] at hn ⊢
  simp only [List.length_cons, List.length_append] at hn
  have hread := h.members key value members (k + 2) (d - 1) (gap k ++ '\x7d' :: rest) rest
    hmembers (by omega) (by rw [skipSpace_gap]; exact skipSpace_cons (by decide) _)
    (stops_cons (.inr rfl) _)
  simp only [indentedMembers, hjoined, String.toList_append, toList_quote, List.cons_append,
    List.append_assoc, List.nil_append] at hread ⊢
  rw [value?_object (by rw [skipSpace_gap]; exact skipSpace_cons (by decide) _) (by decide),
    hread, depth]
  exact if_level _ _ _ _

theorem Reads.value_succ (h : Reads n) {j : Json} (hj : j.Legible)
    (hn : 2 * (j.indented k).toList.length < n + 1) (hrest : Stops rest) :
    value? (n + 1) d ((j.indented k).toList ++ rest) =
      if j.depth ≤ d then some (j, rest) else none := by
  cases j with
  | null => rw [indented_null, value?_null, if_pos (by simp [depth])]
  | bool b => rw [indented_bool, value?_bool, if_pos (by simp [depth])]
  | int m =>
    rw [if_pos (by simp [depth])]
    exact value?_number (number?_append hrest (number?_int hj))
  | float x =>
    rw [indented_float hj, if_pos (by simp [depth])]
    exact value?_number (number?_append hrest hj.2)
  | str s =>
    rw [if_pos (by simp [depth])]
    exact value?_quote s
  | arr items =>
    cases items with
    | nil =>
      rw [indented_arr_nil, depth, depthItems]
      cases d <;> rfl
    | cons item items => exact h.array hj hn
  | obj members =>
    cases members with
    | nil =>
      rw [indented_obj_nil, depth, depthMembers]
      cases d <;> rfl
    | cons member members => exact h.object hj hn

theorem Reads.items_succ (h : Reads n) {item : Json} {items : List Json}
    (hitems : LegibleItems (item :: items))
    (hn : 2 * (joined k (indentedItems k (item :: items))).length + 2 ≤ n + 1)
    (htail : skipSpace tail = ']' :: rest) (hstops : Stops tail) :
    items? (n + 1) d (joined k (indentedItems k (item :: items)) ++ tail) =
      if depthItems (item :: items) ≤ d then some (item :: items, rest) else none := by
  cases items with
  | nil =>
    simp only [indentedItems, joined_singleton] at hn ⊢
    have hvalue := h.value item k d tail hitems.1 (by omega) hstops
    rw [depthItems, depthItems, Nat.max_zero]
    exact items?_last hvalue htail
  | cons next items =>
    simp only [indentedItems, joined_cons, List.length_append, List.length_cons] at hn
    have hvalue := h.value item k d _ hitems.1 (by omega)
      (stops_cons (.inl rfl) (gap k ++ (joined k (indentedItems k (next :: items)) ++ tail)))
    have hmore := h.items next items k d tail rest hitems.2 (by simp only [indentedItems]; omega)
      htail hstops
    have htext : joined k (indentedItems k (item :: next :: items)) ++ tail =
        (item.indented k).toList ++
          ',' :: (gap k ++ (joined k (indentedItems k (next :: items)) ++ tail)) := by
      simp [indentedItems, joined_cons]
    rw [htext, depthItems, items?_more hvalue, items?_gap, hmore]
    exact if_max _ _ _ _ _

theorem Reads.members_succ (h : Reads n) {key : String} {value : Json}
    {members : List (String × Json)} (hmembers : LegibleMembers ((key, value) :: members))
    (hn : 2 * (joined k (indentedMembers k ((key, value) :: members))).length + 2 ≤ n + 1)
    (htail : skipSpace tail = '\x7d' :: rest) (hstops : Stops tail) :
    members? (n + 1) d (joined k (indentedMembers k ((key, value) :: members)) ++ tail) =
      if depthMembers ((key, value) :: members) ≤ d then some ((key, value) :: members, rest)
      else none := by
  cases members with
  | nil =>
    simp only [indentedMembers, joined_singleton, String.toList_append, List.length_append] at hn
    have hvalue := h.value value k d tail hmembers.1 (by omega) hstops
    have htext : joined k (indentedMembers k [(key, value)]) ++ tail =
        (quote key).toList ++ ':' :: ' ' :: ((value.indented k).toList ++ tail) := by
      simp [indentedMembers, joined_singleton]
    rw [htext, depthMembers, depthMembers, Nat.max_zero]
    exact members?_last hvalue htail
  | cons next members =>
    obtain ⟨key', value'⟩ := next
    simp only [indentedMembers, joined_cons, String.toList_append, List.length_append,
      List.length_cons] at hn
    have hvalue := h.value value k d _ hmembers.1 (by omega) (stops_cons (.inl rfl)
      (gap k ++ (joined k (indentedMembers k ((key', value') :: members)) ++ tail)))
    have hmore := h.members key' value' members k d tail rest hmembers.2
      (by simp only [indentedMembers]; omega) htail hstops
    have htext :
        joined k (indentedMembers k ((key, value) :: (key', value') :: members)) ++ tail =
          (quote key).toList ++ ':' :: ' ' :: ((value.indented k).toList ++ ',' ::
            (gap k ++ (joined k (indentedMembers k ((key', value') :: members)) ++ tail))) := by
      simp [indentedMembers, joined_cons]
    rw [htext, depthMembers, members?_more hvalue, members?_gap, hmore]
    exact if_max _ _ _ _ _

theorem reads (n : Nat) : Reads n := by
  induction n with
  | zero =>
    constructor
    · intro j k d rest _ hn
      omega
    · intro item items k d tail rest _ hn
      omega
    · intro key value members k d tail rest _ hn
      omega
  | succ n ih =>
    constructor
    · intro j k d rest hj hn hrest
      exact ih.value_succ hj hn hrest
    · intro item items k d tail rest hitems hn htail hstops
      exact ih.items_succ hitems hn htail hstops
    · intro key value members k d tail rest hmembers hn htail hstops
      exact ih.members_succ hmembers hn htail hstops

theorem read?_indented {j : Json} (hj : j.Legible) :
    read? (j.indented 0) = if j.depth ≤ depthLimit then some j else none := by
  have hstops : Stops [] := by simp [Stops]
  have hread := (reads (2 * (j.indented 0).toList.length + 2)).value j 0 depthLimit [] hj
    (by omega) hstops
  rw [List.append_nil] at hread
  simp only [read?, hread]
  split <;> rfl

end Tabletop.Json
