import Tabletop.Json.Path

-- The keys through which a dotted path leads. They tell the path, and paths are put together from
-- theirs.
namespace Tabletop

namespace Text

theorem splitOn_eq (mark : Char) (s : List Char) : splitOn mark s = s.splitOn mark := by
  induction s with
  | nil => rfl
  | cons c s ih =>
    have hcons : (c :: s).splitOn mark =
        if c = mark then [] :: s.splitOn mark else (s.splitOn mark).modifyHead (c :: ·) := by
      simp [List.splitOn, List.splitOnP_cons_eq_if_modifyHead]
    rw [splitOn, ih, hcons]
    cases hs : s.splitOn mark with
    | nil => exact absurd hs (List.splitOnP_ne_nil _ _)
    | cons piece rest => rfl

end Text

namespace Path

theorem segments_append (path key : String) :
    segments (path ++ "." ++ key) = segments path ++ segments key := by
  have hsplit : (path ++ "." ++ key).toList.splitOn '.' =
      path.toList.splitOn '.' ++ key.toList.splitOn '.' := by
    rw [String.toList_append, String.toList_append, List.append_assoc]
    exact List.splitOnP_append_cons path.toList key.toList (beq_self_eq_true '.')
  simp only [segments, Text.splitOn_eq, hsplit, List.map_append]

theorem segments_of_not_mem {key : String} (h : '.' ∉ key.toList) : segments key = [key] := by
  have hsplit : key.toList.splitOn '.' = [key.toList] := by
    refine List.splitOnP_eq_singleton fun c hc => ?_
    exact beq_eq_false_iff_ne.2 fun hpoint => h (hpoint ▸ hc)
  rw [segments, Text.splitOn_eq, hsplit, List.map_singleton, String.ofList_toList]

theorem segments_injective : Function.Injective segments := by
  intro path other h
  have hpieces : path.toList.splitOn '.' = other.toList.splitOn '.' := by
    rw [segments, segments, Text.splitOn_eq, Text.splitOn_eq] at h
    exact (List.map_inj_right fun _ _ => String.ofList_inj.1).1 h
  have hjoined := congrArg (List.intercalate ['.']) hpieces
  rw [List.intercalate_splitOn, List.intercalate_splitOn] at hjoined
  exact String.toList_injective hjoined

-- Pools hold their value under a key of its own.
theorem value_ne_empty (pool : String) : pool ++ ".value" ≠ "" := by
  intro hempty
  have hlength := congrArg String.length hempty
  simp at hlength

theorem value_inj {pool other : String} : pool ++ ".value" = other ++ ".value" ↔ pool = other := by
  refine ⟨fun h => ?_, fun h => by rw [h]⟩
  have hlists := congrArg String.toList h
  simp only [String.toList_append] at hlists
  exact String.toList_injective (List.append_cancel_right hlists)

-- The keys that a path leads through from the root. The empty path leads nowhere.
def keys (path : String) : List String := if path.isEmpty then [] else segments path

theorem keys_of_ne {path : String} (h : path ≠ "") : keys path = segments path :=
  if_neg fun hempty => h (String.isEmpty_iff.1 hempty)

theorem keys_ne_nil {path : String} (h : path ≠ "") : keys path ≠ [] := by
  rw [keys_of_ne h, segments, Text.splitOn_eq]
  simp [List.splitOn, List.splitOnP_ne_nil]

theorem keys_injective : Function.Injective keys := by
  intro path other h
  by_cases hpath : path = "" <;> by_cases hother : other = ""
  · rw [hpath, hother]
  · subst hpath
    exact absurd h.symm (keys_ne_nil hother)
  · subst hother
    exact absurd h (keys_ne_nil hpath)
  · rw [keys_of_ne hpath, keys_of_ne hother] at h
    exact segments_injective h

end Path

theorem Json.get?_eq_follow? (root : Json) (path : String) :
    root.get? path = root.follow? (Path.keys path) := by
  rw [get?, Path.keys]
  split <;> rfl

end Tabletop
