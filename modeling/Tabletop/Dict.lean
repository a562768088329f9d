namespace Tabletop

-- Entries are pairs of a key and a value. All functions here keep the keys ascending, so that a
-- listing by key needs no sorting.
namespace Entries

variable {α : Type u}

def find? (key : String) : List (String × α) → Option α
  | [] => none
  | (k, v) :: rest => if k = key then some v else find? key rest

-- A key that is there already keeps its place and takes the new value.
def insert (key : String) (value : α) : List (String × α) → List (String × α)
  | [] => [(key, value)]
  | (k, v) :: rest =>
    if k = key then (key, value) :: rest
    else if key < k then (key, value) :: (k, v) :: rest
    else (k, v) :: insert key value rest

def erase (key : String) : List (String × α) → List (String × α)
  | [] => []
  | (k, v) :: rest => if k = key then rest else (k, v) :: erase key rest

-- Later pairs win over earlier ones with the same key.
def ofList (pairs : List (String × α)) : List (String × α) :=
  pairs.foldl (fun entries (k, v) => insert k v entries) []

def Ascending (entries : List (String × α)) : Prop :=
  (entries.map Prod.fst).Pairwise (· < ·)

theorem mem_keys_insert {key : String} {value : α} {entries : List (String × α)} {k : String}
    (h : k ∈ (insert key value entries).map Prod.fst) : k = key ∨ k ∈ entries.map Prod.fst := by
  induction entries with
  | nil => simpa [insert] using h
  | cons entry rest ih =>
    obtain ⟨k', v'⟩ := entry
    simp only [insert] at h
    split at h
    · next heq => subst heq; simp only [List.map_cons, List.mem_cons] at h ⊢; exact .inr h
    · split at h
      · simpa using h
      · simp only [List.map_cons, List.mem_cons] at h ⊢
        rcases h with h | h
        · exact .inr (.inl h)
        · rcases ih h with h | h
          · exact .inl h
          · exact .inr (.inr h)

theorem ascending_insert {key : String} {value : α} {entries : List (String × α)}
    (h : Ascending entries) : Ascending (insert key value entries) := by
  induction entries with
  | nil => simp [insert, Ascending]
  | cons entry rest ih =>
    obtain ⟨k', v'⟩ := entry
    simp only [Ascending, List.map_cons, List.pairwise_cons] at h
    simp only [insert]
    split
    · next heq => subst heq; simpa [Ascending] using h
    · next hne =>
      split
      · next hlt =>
        simp only [Ascending, List.map_cons, List.pairwise_cons, List.mem_cons]
        refine ⟨?_, h⟩
        rintro k (rfl | hk)
        · exact hlt
        · exact String.lt_trans hlt (h.1 k hk)
      · next hge =>
        simp only [Ascending, List.map_cons, List.pairwise_cons]
        refine ⟨?_, ih h.2⟩
        intro k hk
        rcases mem_keys_insert hk with rfl | hk
        · refine Decidable.byContradiction fun hnot => hne ?_
          exact String.le_antisymm (String.not_lt.mp hge) (String.not_lt.mp hnot)
        · exact h.1 k hk

theorem erase_sublist (key : String) (entries : List (String × α)) :
    List.Sublist (erase key entries) entries := by
  induction entries with
  | nil => exact .slnil
  | cons entry rest ih =>
    simp only [erase]
    split
    · exact .cons _ (List.Sublist.refl rest)
    · exact .cons_cons _ ih

theorem ascending_erase {key : String} {entries : List (String × α)}
    (h : Ascending entries) : Ascending (erase key entries) :=
  List.Pairwise.sublist ((erase_sublist key entries).map Prod.fst) h

end Entries

-- A map from names to values, listed in ascending order of the names.
structure Dict (α : Type u) where
  entries : List (String × α)
  ascending : Entries.Ascending entries

namespace Dict

variable {α : Type u} {β : Type v}

def empty : Dict α := ⟨[], List.Pairwise.nil⟩

instance : EmptyCollection (Dict α) := ⟨empty⟩
instance : Inhabited (Dict α) := ⟨empty⟩

@[ext] theorem ext {d e : Dict α} (h : d.entries = e.entries) : d = e := by
  cases d; cases e; cases h; rfl

instance [DecidableEq α] : DecidableEq (Dict α) := fun d e =>
  if h : d.entries = e.entries then .isTrue (ext h) else .isFalse fun h' => h (h' ▸ rfl)

def find? (d : Dict α) (key : String) : Option α := Entries.find? key d.entries

def contains (d : Dict α) (key : String) : Bool := (d.find? key).isSome

def insert (d : Dict α) (key : String) (value : α) : Dict α :=
  ⟨Entries.insert key value d.entries, Entries.ascending_insert d.ascending⟩

def erase (d : Dict α) (key : String) : Dict α :=
  ⟨Entries.erase key d.entries, Entries.ascending_erase d.ascending⟩

def keys (d : Dict α) : List String := d.entries.map Prod.fst

def values (d : Dict α) : List α := d.entries.map Prod.snd

def size (d : Dict α) : Nat := d.entries.length

def isEmpty (d : Dict α) : Bool := d.entries.isEmpty

-- Later pairs win over earlier ones with the same key.
def ofList (pairs : List (String × α)) : Dict α :=
  pairs.foldl (fun d (k, v) => d.insert k v) empty

-- The values change, the keys stay.
def mapValues (f : String → α → β) (d : Dict α) : Dict β where
  entries := d.entries.map fun (k, v) => (k, f k v)
  ascending := by
    have h := d.ascending
    simp only [Entries.Ascending, List.map_map] at h ⊢
    exact h

end Dict

-- A set of names is a dictionary whose values say nothing.
abbrev Names := Dict Unit

namespace Names

def ofList (names : List String) : Names := Dict.ofList (names.map fun n => (n, ()))

def add (s : Names) (name : String) : Names := Dict.insert s name ()

-- A name that is in the set leaves it, any other joins it.
def flip (s : Names) (name : String) : Names :=
  if Dict.contains s name then Dict.erase s name else s.add name

def toList (s : Names) : List String := Dict.keys s

end Names

end Tabletop
