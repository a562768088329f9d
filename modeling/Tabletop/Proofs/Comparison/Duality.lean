import Tabletop.Proofs.Binary64.Order
import Tabletop.Proofs.Predicate

-- The laws of comparisons. Each goes with its converse for all values. Numbers are in an order, and
-- so are texts that read as numbers; texts of both kinds together are not.
namespace Tabletop

/-! Numbers -/

namespace Binary64

variable {x y z : Binary64}

theorem compare?_swap (x y : Binary64) : y.compare? x = (x.compare? y).map Ordering.swap := by
  cases hx : x.rank? with
  | none => cases hy : y.rank? <;> simp [compare?, hx, hy]
  | some a => cases hy : y.rank? <;> simp [compare?, hx, hy, Int.compare_swap]

theorem exists_compare? (hx : x ≠ nan) (hy : y ≠ nan) : ∃ o, x.compare? y = some o := by
  cases x with
  | nan => exact absurd rfl hx
  | finite | infinite =>
    cases y with
    | nan => exact absurd rfl hy
    | finite | infinite => exact ⟨_, rfl⟩

theorem lt_iff_compare? : x < y ↔ x.compare? y = some .lt := beq_iff_eq

theorem compare?_trans (h : x.compare? y = some .lt) (h' : y.compare? z = some .lt) :
    x.compare? z = some .lt :=
  lt_iff_compare?.1 (lt_of_le_of_lt (le_of_lt (lt_iff_compare?.2 h)) (lt_iff_compare?.2 h'))

-- Numbers that are alike are told apart by no comparison.
theorem Alike.compare?_eq {o : Ordering} (h : Alike x y) (ho : x.compare? y = some o) : o = .eq := by
  obtain rfl | hsame := h
  · unfold compare? at ho
    split at ho
    · next a b ha hb =>
      obtain rfl := Option.some.inj (ha.symm.trans hb)
      exact (Option.some.inj ho).symm.trans (Int.compare_eq_eq.2 rfl)
    · cases ho
  · exact Option.some.inj (ho.symm.trans (beq_iff_eq.1 hsame))

end Binary64

namespace Json

variable {a b c : Json} {x y : Binary64} {o : Ordering}

/-! Equality -/

mutual

theorem same_comm : ∀ a b : Json, a.same b = b.same a
  | .null, b => by cases b <;> rfl
  | .bool _, b => by cases b <;> simp [same, Bool.beq_comm]
  | .int _, b => by cases b <;> simp [same, Bool.beq_comm]
  | .float _, b => by cases b <;> simp [same, Binary64.same_comm]
  | .str _, b => by cases b <;> simp [same, Bool.beq_comm]
  | .arr xs, b => by
    cases b with
    | arr ys => exact sameItems_comm xs ys
    | null | bool | int | float | str | obj => rfl
  | .obj ms, b => by
    cases b with
    | obj ns => exact sameMembers_comm ms ns
    | null | bool | int | float | str | arr => rfl

theorem sameItems_comm : ∀ xs ys : List Json, sameItems xs ys = sameItems ys xs
  | [], ys => by cases ys <;> rfl
  | x :: xs, ys => by
    cases ys with
    | nil => rfl
    | cons y ys => rw [sameItems, sameItems, same_comm x y, sameItems_comm xs ys]

theorem sameMembers_comm :
    ∀ ms ns : List (String × Json), sameMembers ms ns = sameMembers ns ms
  | [], ns => by cases ns <;> rfl
  | (k, x) :: ms, ns => by
    cases ns with
    | nil => rfl
    | cons n ns =>
      obtain ⟨l, y⟩ := n
      rw [sameMembers, sameMembers, same_comm x y, sameMembers_comm ms ns, Bool.beq_comm]

end

theorem loosely_comm (a b : Json) : a.loosely b = b.loosely a := by
  unfold loosely
  rw [same_comm a b]
  congr 1
  cases ha : a.comparand? with
  | some x =>
    cases hb : b.comparand? with
    | some y => exact Binary64.same_comm x y
    | none => cases a <;> cases b <;> simp [Bool.beq_comm]
  | none => cases a <;> cases b <;> simp [Bool.beq_comm]

/-! Order -/

-- Where the order of two values comes from: from the numbers that both read as, from the characters
-- of two texts, or from nowhere.
theorem order?_cases (a b : Json) :
    (∃ x y, a.comparand? = some x ∧ b.comparand? = some y ∧ a.order? b = x.compare? y ∧
      b.order? a = y.compare? x) ∨
    (∃ s t, a = .str s ∧ b = .str t ∧ (a.comparand? = none ∨ b.comparand? = none) ∧
      a.order? b = some (compare s t) ∧ b.order? a = some (compare t s)) ∨
    a.order? b = none ∧ b.order? a = none := by
  unfold order?
  cases ha : a.comparand? with
  | some x =>
    cases hb : b.comparand? with
    | some y => exact .inl ⟨x, y, rfl, rfl, rfl, rfl⟩
    | none => cases a <;> cases b <;> simp
  | none => cases a <;> cases b <;> simp

theorem order?_swap (a b : Json) : b.order? a = (a.order? b).map Ordering.swap := by
  obtain ⟨x, y, -, -, hab, hba⟩ | ⟨s, t, -, -, -, hab, hba⟩ | ⟨hab, hba⟩ := order?_cases a b
  · rw [hab, hba, Binary64.compare?_swap]
  · rw [hab, hba]
    exact congrArg some Std.OrientedCmp.eq_swap
  · rw [hab, hba, Option.map_none]

theorem alike_of_same (h : a.same b = true) (hx : a.comparand? = some x)
    (hy : b.comparand? = some y) : Binary64.Alike x y := by
  cases a with
  | null | bool | arr | obj => cases hx
  | int m =>
    cases b with
    | int n =>
      obtain rfl : m = n := beq_iff_eq.1 h
      exact .inl (Option.some.inj (hx.symm.trans hy))
    | null | bool | float | str | arr | obj => cases h
  | float u =>
    cases b with
    | float v =>
      cases hx
      cases hy
      exact .inr h
    | null | bool | int | str | arr | obj => cases h
  | str s =>
    cases b with
    | str t =>
      obtain rfl : s = t := beq_iff_eq.1 h
      exact .inl (Option.some.inj (hx.symm.trans hy))
    | null | bool | int | float | arr | obj => cases h

-- Values that are in an order are equal if neither comes first, and not otherwise.
theorem loosely_iff_of_order (h : a.order? b = some o) : a.loosely b = true ↔ o = .eq := by
  obtain ⟨x, y, hx, hy, hab, -⟩ | ⟨s, t, rfl, rfl, hwords, hab, -⟩ | ⟨hab, -⟩ := order?_cases a b
  · rw [loosely_of_comparands hx hy, Bool.or_eq_true]
    rw [hab] at h
    constructor
    · rintro (hsame | hsame)
      · exact (alike_of_same hsame hx hy).compare?_eq h
      · exact Binary64.Alike.compare?_eq (.inr hsame) h
    · rintro rfl
      exact .inr (beq_iff_eq.2 h)
  · obtain rfl := Option.some.inj (hab.symm.trans h)
    rw [loosely_str, Std.compare_eq_iff_eq]
    refine or_iff_left ?_
    rintro ⟨x, y, hx, hy, -⟩
    obtain hword | hword := hwords
    · exact absurd (hx.symm.trans hword) (by simp)
    · exact absurd (hy.symm.trans hword) (by simp)
  · rw [hab] at h
    cases h

theorem less_iff : a.compareBy .less b = true ↔ a.order? b = some .lt := beq_iff_eq

theorem greater_iff : a.compareBy .greater b = true ↔ a.order? b = some .gt := beq_iff_eq

theorem less_eq_greater (a b : Json) : a.compareBy .less b = b.compareBy .greater a := by
  rw [compareBy, compareBy, order?_swap a b]
  cases a.order? b with
  | none => rfl
  | some o => cases o <;> rfl

theorem atMost_eq_atLeast (a b : Json) : a.compareBy .atMost b = b.compareBy .atLeast a := by
  rw [compareBy, compareBy, order?_swap a b]
  cases a.order? b with
  | none => rfl
  | some o => cases o <;> rfl

-- What is not there is null, and has no place among the other values.
theorem compareBy_null (h : b ≠ .null) (comparison : Comparison) :
    null.compareBy comparison b = true ↔ comparison = .unequal ∨ comparison = .hasNot := by
  have hloosely : null.loosely b = false := by
    cases b with
    | null => exact absurd rfl h
    | bool | int | float | arr | obj => rfl
    | str t => simp [loosely, same, comparand?, toNumber?, isNull]
  have horder : null.order? b = none := by
    cases b <;> rfl
  cases comparison <;> simp [compareBy, hloosely, horder, holds]

-- Equality and order go with their converses and with each other, for all values.
theorem compareBy_dual (a b : Json) :
    a.compareBy .unequal b = !a.compareBy .equal b ∧ a.compareBy .hasNot b = !a.compareBy .has b ∧
    a.compareBy .equal b = b.compareBy .equal a ∧
    a.compareBy .less b = b.compareBy .greater a ∧
    a.compareBy .atMost b = b.compareBy .atLeast a ∧
    ¬ (a.compareBy .less b = true ∧ a.compareBy .equal b = true) ∧
    (a.compareBy .atMost b = true →
      a.compareBy .less b = true ∨ a.compareBy .equal b = true) ∧
    (∀ items, (arr items).compareBy .has b = true ↔
      ∃ item ∈ items, item.compareBy .equal b = true) ∧
    (b ≠ .null → ∀ comparison, null.compareBy comparison b = true ↔
      comparison = .unequal ∨ comparison = .hasNot) := by
  refine ⟨rfl, rfl, loosely_comm a b, less_eq_greater a b, atMost_eq_atLeast a b, ?_, ?_, ?_,
    compareBy_null⟩
  · rintro ⟨hless, hequal⟩
    have heq := (loosely_iff_of_order (less_iff.1 hless)).1 hequal
    cases heq
  · intro h
    obtain hless | hsame := Bool.or_eq_true_iff.1 h
    · exact .inl hless
    · exact .inr ((loosely_iff_of_order (beq_iff_eq.1 hsame)).2 rfl)
  · intro items
    exact List.any_eq_true

theorem compareBy_dual_fortune :
    (arr [.str "7", .int 13]).compareBy .has (.float 13) = true ∧
    (str "7").compareBy .atMost (.int 13) = true ∧
      ((str "7").compareBy .less (.int 13) = true ∨ (str "7").compareBy .equal (.int 13) = true) ∧
      Json.int 13 ≠ .null ∧
      ∀ comparison, null.compareBy comparison (.int 13) = true ↔
        comparison = .unequal ∨ comparison = .hasNot := by
  have hleast : (str "7").compareBy .atMost (.int 13) = true := by decide +kernel
  have hsome : Json.int 13 ≠ .null := by simp
  have hequal : (Json.int 13).compareBy .equal (.float 13) = true := by decide +kernel
  obtain ⟨-, -, -, -, -, -, -, hhas, -⟩ := compareBy_dual .null (.float 13)
  obtain ⟨-, -, -, -, -, -, hordered, -, hmissing⟩ := compareBy_dual (.str "7") (.int 13)
  exact ⟨(hhas _).2 ⟨.int 13, by simp, hequal⟩, hleast, hordered hleast, hsome, hmissing hsome⟩

end Json

end Tabletop
