import Mathlib.Data.List.DropRight
import Tabletop.Proofs.Text.Runs
import Tabletop.Text.Basic

-- Texts without white space at either end.
namespace Tabletop.Text

def Trimmed (s : List Char) : Prop :=
  (∀ c ∈ s.head?, isBlank c = false) ∧ ∀ c ∈ s.getLast?, isBlank c = false

variable {s : List Char}

theorem trimRight_eq_rdropWhile (s : List Char) : trimRight s = s.rdropWhile isBlank := rfl

theorem exists_trimRight_append (s : List Char) : ∃ t, trimRight s ++ t = s :=
  List.rdropWhile_prefix isBlank s

theorem trimmed_trim (s : String) : Trimmed (trim s).toList := by
  rw [trim, String.toList_ofList]
  constructor
  · intro c hc
    obtain ⟨t, ht⟩ := exists_trimRight_append (trimLeft s.toList)
    have hhead : (s.toList.dropWhile isBlank).head? = some c := by
      rw [← trimLeft, ← ht, List.head?_append, hc, Option.some_or]
    exact head?_dropWhile s.toList c hhead
  · intro c hc
    rw [trimRight_eq_rdropWhile] at hc
    obtain ⟨hne, rfl⟩ := List.mem_getLast?_eq_getLast hc
    simpa using List.rdropWhile_last_not isBlank (trimLeft s.toList) hne

theorem trim_eq_self {s : String} (h : Trimmed s.toList) : trim s = s := by
  have hleft : trimLeft s.toList = s.toList := by
    rw [trimLeft, List.dropWhile_eq_self_iff]
    intro hlength
    simpa using h.1 _ (List.head?_eq_getElem?.trans (List.getElem?_eq_getElem hlength))
  have hright : trimRight s.toList = s.toList := by
    rw [trimRight_eq_rdropWhile, List.rdropWhile_eq_self_iff]
    intro hne
    simpa using h.2 _ (List.getLast?_eq_some_getLast hne)
  rw [trim, hleft, hright, String.ofList_toList]

@[simp] theorem trim_trim (s : String) : trim (trim s) = trim s := trim_eq_self (trimmed_trim s)

theorem length_trim_le (s : String) : (trim s).toList.length ≤ s.toList.length := by
  rw [trim, String.toList_ofList]
  obtain ⟨t, ht⟩ := exists_trimRight_append (trimLeft s.toList)
  have hright := congrArg List.length ht
  have hleft : (trimLeft s.toList).length ≤ s.toList.length := List.length_dropWhile_le isBlank _
  rw [List.length_append] at hright
  omega

end Tabletop.Text
