import Tabletop.Proofs.Json.Numbers
import Tabletop.Proofs.Json.Strings

-- Documents read back from their texts as long as they are not nested too deep.
namespace Tabletop

-- Whether a number has a form in documents that stands for nothing but the number itself.
def Binary64.Legible (x : Binary64) : Prop :=
  x.isFinite = true ∧ Json.number? x.documentText.toList = some (.float x, [])

namespace Json

mutual

-- Whether all numbers within are legible.
def Legible : Json → Prop
  | .int n => Whole64 n
  | .float x => x.Legible
  | .arr items => LegibleItems items
  | .obj members => LegibleMembers members
  | _ => True

def LegibleItems : List Json → Prop
  | [] => True
  | item :: rest => item.Legible ∧ LegibleItems rest

def LegibleMembers : List (String × Json) → Prop
  | [] => True
  | (_, value) :: rest => value.Legible ∧ LegibleMembers rest

end

mutual

-- How deep arrays and objects are nested.
def depth : Json → Nat
  | .arr items => depthItems items + 1
  | .obj members => depthMembers members + 1
  | _ => 0

def depthItems : List Json → Nat
  | [] => 0
  | item :: rest => max item.depth (depthItems rest)

def depthMembers : List (String × Json) → Nat
  | [] => 0
  | (_, value) :: rest => max value.depth (depthMembers rest)

end

/-! The texts of arrays and objects -/

-- The start of a line.
def gap (k : Nat) : List Char := '\n' :: List.replicate k ' '

-- Texts on lines of their own, up to the end of the last one.
def joined (k : Nat) (lines : List String) : List Char :=
  (',' :: gap k).intercalate (lines.map String.toList)

theorem joined_singleton (k : Nat) (line : String) : joined k [line] = line.toList := by
  simp [joined]

theorem joined_cons (k : Nat) (line next : String) (lines : List String) :
    joined k (line :: next :: lines) =
      line.toList ++ ',' :: (gap k ++ joined k (next :: lines)) := by
  simp [joined, List.intercalate_cons_cons]

theorem toList_block (k : Nat) (opening closing line : String) (lines : List String) :
    (block (k + 2) opening closing (line :: lines)).toList =
      opening.toList ++ gap (k + 2) ++ joined (k + 2) (line :: lines) ++ gap k ++
        closing.toList := by
  simp [block, blanks, joined, gap, String.toList_intercalate]

theorem indented_null (k : Nat) : (Json.null.indented k).toList = ['n', 'u', 'l', 'l'] := by
  simp [indented, compact]

theorem indented_bool (b : Bool) (k : Nat) : ((Json.bool b).indented k).toList =
    if b then ['t', 'r', 'u', 'e'] else ['f', 'a', 'l', 's', 'e'] := by
  cases b <;> simp [indented, compact]

theorem indented_float {x : Binary64} (hx : x.Legible) (k : Nat) :
    (Json.float x).indented k = x.documentText :=
  if_pos hx.1

theorem indented_arr_nil (k : Nat) : ((Json.arr []).indented k).toList = ['[', ']'] := by
  simp [indented, indentedItems, block]

theorem indented_arr_cons (k : Nat) (item : Json) (items : List Json) :
    ((Json.arr (item :: items)).indented k).toList = '[' :: (gap (k + 2) ++
      (joined (k + 2) (indentedItems (k + 2) (item :: items)) ++ (gap k ++ [']']))) := by
  rw [indented, indentedItems, toList_block]
  simp

theorem indented_obj_nil (k : Nat) : ((Json.obj []).indented k).toList = ['\x7b', '\x7d'] := by
  simp [indented, indentedMembers, block]

theorem indented_obj_cons (k : Nat) (key : String) (value : Json)
    (members : List (String × Json)) :
    ((Json.obj ((key, value) :: members)).indented k).toList = '\x7b' :: (gap (k + 2) ++
      (joined (k + 2) (indentedMembers (k + 2) ((key, value) :: members)) ++
        (gap k ++ ['\x7d']))) := by
  rw [indented, indentedMembers, toList_block]
  simp

theorem joined_head (k : Nat) (line : String) (lines : List String) :
    ∃ t, joined k (line :: lines) = line.toList ++ t := by
  cases lines with
  | nil => exact ⟨[], by simp [joined_singleton]⟩
  | cons next lines => exact ⟨_, joined_cons k line next lines⟩

-- Neither a blank nor a closing bracket starts a value.
theorem indented_head {j : Json} (hj : j.Legible) (k : Nat) :
    ∃ c t, (j.indented k).toList = c :: t ∧ isSpace c = false ∧ c ≠ ']' := by
  have hnumber : ∀ {s : List Char} {j : Json}, number? s = some (j, []) →
      ∃ c t, s = c :: t ∧ isSpace c = false ∧ c ≠ ']' := by
    intro s j h
    obtain ⟨c, t, rfl, hc⟩ := number?_head h
    exact ⟨c, t, rfl, (not_opening_of_number hc).1, (not_opening_of_number hc).2.1⟩
  cases j with
  | null => exact ⟨_, _, indented_null k, by decide, by decide⟩
  | bool b =>
    rw [indented_bool]
    cases b
    · exact ⟨_, _, rfl, by decide, by decide⟩
    · exact ⟨_, _, rfl, by decide, by decide⟩
  | int m => exact hnumber (number?_int hj)
  | float x =>
    rw [indented_float hj]
    exact hnumber hj.2
  | str s => exact ⟨_, _, toList_quote s, by decide, by decide⟩
  | arr items =>
    cases items with
    | nil => exact ⟨_, _, indented_arr_nil k, by decide, by decide⟩
    | cons item items => exact ⟨_, _, indented_arr_cons k item items, by decide, by decide⟩
  | obj members =>
    cases members with
    | nil => exact ⟨_, _, indented_obj_nil k, by decide, by decide⟩
    | cons member members =>
      exact ⟨_, _, indented_obj_cons k member.1 member.2 members, by decide, by decide⟩

end Json

end Tabletop
