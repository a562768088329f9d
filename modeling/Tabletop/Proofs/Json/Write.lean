import Tabletop.Proofs.Dict
import Tabletop.Proofs.Json.Path

-- What is found in a document after a value was written: the value where it was written, and what
-- was there before on every way that is apart from there.
namespace Tabletop

-- Whether neither of two ways through a document goes through the end of the other.
def Path.Apart (way other : List String) : Prop := ¬ way <+: other ∧ ¬ other <+: way

namespace Json

variable {root value : Json} {way : List String}

theorem follow?_cons (root : Json) (key : String) (rest : List String) :
    root.follow? (key :: rest) =
      (Entries.find? key root.membersOrNone).bind fun child => child.follow? rest := by
  rw [follow?]
  cases root with
  | obj members =>
    simp only [member?, membersOrNone]
    cases Entries.find? key members <;> rfl
  | _ => rfl

theorem follow?_write_cons {key k : String} (rest : List String) :
    (root.write value (key :: way)).follow? (k :: rest) =
      if k = key then
        (((Entries.find? key root.membersOrNone).getD (.obj [])).write value way).follow? rest
      else root.follow? (k :: rest) := by
  rw [follow?_cons, follow?_cons]
  simp only [write, membersOrNone, Entries.find?_insert]
  split <;> rfl

theorem follow?_write (root value : Json) (way : List String) :
    (root.write value way).follow? way = some value := by
  induction way generalizing root with
  | nil => rfl
  | cons key way ih => rw [follow?_write_cons, if_pos rfl, ih]

-- An object that is made on the way leads nowhere else.
theorem follow?_write_of_apart {others : List String} (h : Path.Apart way others) :
    (root.write value way).follow? others = root.follow? others := by
  induction way generalizing root others with
  | nil => exact absurd List.nil_prefix h.1
  | cons key way ih =>
    cases others with
    | nil => exact absurd List.nil_prefix h.2
    | cons k rest =>
      rw [follow?_write_cons]
      split
      · next hk =>
        subst hk
        have hrest : Path.Apart way rest := by
          simpa [Path.Apart, List.cons_prefix_cons] using h
        rw [ih hrest, follow?_cons]
        cases rest with
        | nil => exact absurd List.nil_prefix hrest.2
        | cons => cases Entries.find? k root.membersOrNone <;> rfl
      · rfl

theorem follow?_append (root : Json) (way rest : List String) :
    root.follow? (way ++ rest) = (root.follow? way).bind fun child => child.follow? rest := by
  induction way generalizing root with
  | nil => rfl
  | cons key way ih =>
    rw [List.cons_append, follow?_cons, follow?_cons, Option.bind_assoc]
    exact congrArg _ (funext ih)

-- Nothing lies beyond what has no members.
theorem follow?_of_toNumber? {j : Json} {x : Binary64} (h : j.toNumber? = some x) (key : String)
    (rest : List String) : j.follow? (key :: rest) = none := by
  rw [follow?_cons]
  cases j with
  | obj => cases h
  | _ => rfl

theorem not_prefix_of_numbers {others : List String} {x y : Binary64}
    (h : (root.follow? way).bind toNumber? = some x)
    (h' : (root.follow? others).bind toNumber? = some y) (hne : way ≠ others) :
    ¬ way <+: others := by
  rintro ⟨rest, rfl⟩
  obtain ⟨j, hj, hx⟩ := Option.bind_eq_some_iff.1 h
  cases rest with
  | nil => exact hne (List.append_nil way).symm
  | cons key rest =>
    rw [follow?_append, hj, Option.bind_some, follow?_of_toNumber? hx] at h'
    cases h'

-- Two ways that lead to numbers are one or apart.
theorem apart_of_numbers {others : List String} {x y : Binary64}
    (h : (root.follow? way).bind toNumber? = some x)
    (h' : (root.follow? others).bind toNumber? = some y) (hne : way ≠ others) :
    Path.Apart way others :=
  ⟨not_prefix_of_numbers h h' hne, not_prefix_of_numbers h' h hne.symm⟩

-- Whether two documents are the same on all ways apart from these.
def SameApart (ways : List (List String)) (root other : Json) : Prop :=
  ∀ way, (∀ w ∈ ways, Path.Apart w way) → other.follow? way = root.follow? way

namespace SameApart

variable {other last : Json} {ways more : List (List String)}

theorem refl (ways : List (List String)) (root : Json) : root.SameApart ways root := fun _ _ => rfl

theorem trans (h : root.SameApart ways other) (h' : other.SameApart ways last) :
    root.SameApart ways last :=
  fun way hway => (h' way hway).trans (h way hway)

theorem mono (h : root.SameApart ways other) (hways : ways ⊆ more) : root.SameApart more other :=
  fun way hway => h way fun w hw => hway w (hways hw)

theorem write (hway : way ∈ ways) : root.SameApart ways (root.write value way) :=
  fun _ hother => follow?_write_of_apart (hother way hway)

end SameApart

end Json

end Tabletop
