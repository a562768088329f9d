import Tabletop.Proofs.Binary64.Rounding

-- Numbers that differ in the sign of a zero at most. Arithmetic keeps them so, but for a division
-- by zero.
namespace Tabletop.Binary64

variable {x x' y y' : Binary64}

-- NaN is like itself, though it is not the same as itself.
def Alike (x y : Binary64) : Prop := x = y ∨ x.same y = true

def signedZero (negative : Bool) : Binary64 := .finite negative 0 Units.representable_zero

theorem Alike.refl (x : Binary64) : Alike x x := .inl rfl

theorem Alike.same_of_isFinite (h : Alike x y) (hx : x.isFinite = true) : x.same y = true := by
  obtain rfl | hsame := h
  · exact same_self hx
  · exact hsame

theorem alike_zeros (s t : Bool) : Alike (signedZero s) (signedZero t) := by
  refine .inr ((same_iff_rank rfl rfl).2 ?_)
  cases s <;> cases t <;> rfl

theorem eq_of_same_infinite {s : Bool} (h : x.same (.infinite s) = true) : x = .infinite s := by
  cases x with
  | nan => simp [same, compare?, rank?] at h
  | infinite t =>
    have hrank := (same_iff_rank rfl rfl).1 h
    have hlimit := Units.limit_pos
    cases s <;> cases t <;> simp only [signed] at hrank <;> grind
  | finite t u hu =>
    have habs := congrArg Int.natAbs ((same_iff_rank rfl rfl).1 h)
    have hlimit := hu.1
    rw [natAbs_signed, natAbs_signed] at habs
    omega

theorem same_comm (x y : Binary64) : x.same y = y.same x := by
  cases hx : x.rank? with
  | none => cases hy : y.rank? <;> simp [same, compare?, hx, hy]
  | some a =>
    cases hy : y.rank? with
    | none => simp [same, compare?, hx, hy]
    | some b =>
      rw [Bool.eq_iff_iff, same_iff_rank hx hy, same_iff_rank hy hx]
      exact eq_comm

-- Apart from zeros, alike is equal.
theorem Alike.eq_or_zeros (h : Alike x y) :
    x = y ∨ ∃ s t, x = signedZero s ∧ y = signedZero t := by
  obtain heq | hsame := h
  · exact .inl heq
  cases y with
  | nan => cases x <;> simp [same, compare?, rank?] at hsame
  | infinite t => exact .inl (eq_of_same_infinite hsame)
  | finite t v hv =>
    cases x with
    | nan => simp [same, compare?, rank?] at hsame
    | infinite s => exact .inl (eq_of_same_infinite (same_comm _ _ ▸ hsame)).symm
    | finite s u hu =>
      have hsigned : signed s u = signed t v := (same_iff_rank rfl rfl).1 hsame
      have habs := congrArg Int.natAbs hsigned
      rw [natAbs_signed, natAbs_signed] at habs
      subst habs
      by_cases hzero : u = 0
      · subst hzero
        exact .inr ⟨s, t, rfl, rfl⟩
      · have hsign : s = t := by
          cases s <;> cases t <;> simp only [signed] at hsigned <;> first | rfl | grind
        exact .inl (hsign ▸ rfl)

-- What treats both zeros alike treats all numbers so.
theorem Alike.map {f : Binary64 → Binary64} (h : Alike x y)
    (zeros : ∀ s t, Alike (f (signedZero s)) (f (signedZero t))) : Alike (f x) (f y) := by
  obtain rfl | ⟨s, t, rfl, rfl⟩ := h.eq_or_zeros
  · exact .refl _
  · exact zeros s t

theorem Alike.trans {z : Binary64} (h : Alike x y) (h' : Alike y z) : Alike x z := by
  obtain rfl | ⟨s, t, rfl, rfl⟩ := h.eq_or_zeros
  · exact h'
  obtain heq | ⟨s', t', heq, rfl⟩ := h'.eq_or_zeros
  · exact heq ▸ alike_zeros s t
  · exact alike_zeros s t'

theorem Alike.map₂ {f : Binary64 → Binary64 → Binary64} (h : Alike x x') (h' : Alike y y')
    (left : ∀ s t y, Alike (f (signedZero s) y) (f (signedZero t) y))
    (right : ∀ s t x, Alike (f x (signedZero s)) (f x (signedZero t))) :
    Alike (f x y) (f x' y') := by
  have hleft : Alike (f x y) (f x' y) := h.map (f := (f · y)) fun s t => left s t y
  exact hleft.trans (h'.map fun s t => right s t x')

/-! Arithmetic -/

theorem Alike.neg (h : Alike x y) : Alike (-x) (-y) :=
  h.map fun s t => alike_zeros (!s) (!t)

theorem ofUnits_zero (negative : Bool) (den : Nat) : ofUnits negative 0 den = signedZero negative := by
  have hnearest : Units.nearest 0 den = 0 := by
    simp [Units.nearest]
  simp only [ofUnits, hnearest, dif_pos Units.limit_pos]
  rfl

theorem ofUnits_zero_alike (s t : Bool) (den : Nat) :
    Alike (ofUnits s 0 den) (ofUnits t 0 den) := by
  rw [ofUnits_zero, ofUnits_zero]
  exact alike_zeros s t

theorem signed_zero (negative : Bool) : signed negative 0 = 0 := by cases negative <;> rfl

-- What is added to a zero stays as it is, but for the sign of another zero.
theorem zero_add_alike (s t : Bool) (y : Binary64) :
    Alike (signedZero s + y) (signedZero t + y) := by
  cases y with
  | infinite | nan => exact .refl _
  | finite r v hv =>
    change Alike (add (signedZero s) _) (add (signedZero t) _)
    simp only [signedZero, add, signed_zero, Int.zero_add]
    by_cases hsum : signed r v = 0
    · rw [hsum, Int.natAbs_zero]
      exact ofUnits_zero_alike _ _ 1
    · rw [if_neg hsum, if_neg hsum]
      exact .refl _

theorem add_zero_alike (s t : Bool) (x : Binary64) :
    Alike (x + signedZero s) (x + signedZero t) := by
  cases x with
  | infinite | nan => exact .refl _
  | finite r u hu =>
    change Alike (add _ (signedZero s)) (add _ (signedZero t))
    simp only [signedZero, add, signed_zero, Int.add_zero]
    by_cases hsum : signed r u = 0
    · rw [hsum, Int.natAbs_zero]
      exact ofUnits_zero_alike _ _ 1
    · rw [if_neg hsum, if_neg hsum]
      exact .refl _

theorem Alike.add (h : Alike x x') (h' : Alike y y') : Alike (x + y) (x' + y') :=
  h.map₂ h' zero_add_alike add_zero_alike

theorem Alike.sub (h : Alike x x') (h' : Alike y y') : Alike (x - y) (x' - y') :=
  h.add h'.neg

theorem mul_eq_mul (x y : Binary64) : x * y = mul x y := rfl

theorem div_eq_div (x y : Binary64) : x / y = div x y := rfl

theorem rem_eq_rem (x y : Binary64) : x % y = rem x y := rfl

theorem same_zero (s : Bool) : same (signedZero s) zero = true :=
  (same_iff_rank rfl rfl).2 (by cases s <;> rfl)

theorem infinite_mul_zero (r s : Bool) :
    infinite r * signedZero s = nan ∧ signedZero s * infinite r = nan := by
  constructor
  · rw [mul_eq_mul, mul, same_zero, Bool.or_true, if_pos rfl] <;> simp [signedZero]
  · rw [mul_eq_mul, mul, same_zero, Bool.true_or, if_pos rfl] <;> simp [signedZero]

theorem zero_mul_alike (s t : Bool) (y : Binary64) :
    Alike (signedZero s * y) (signedZero t * y) := by
  cases y with
  | nan => exact .refl _
  | infinite r =>
    rw [(infinite_mul_zero r s).2, (infinite_mul_zero r t).2]
    exact .refl _
  | finite r v hv =>
    simp only [mul_eq_mul, signedZero, mul, Nat.zero_mul]
    exact ofUnits_zero_alike _ _ _

theorem mul_zero_alike (s t : Bool) (x : Binary64) :
    Alike (x * signedZero s) (x * signedZero t) := by
  cases x with
  | nan => exact .refl _
  | infinite r =>
    rw [(infinite_mul_zero r s).1, (infinite_mul_zero r t).1]
    exact .refl _
  | finite r u hu =>
    simp only [mul_eq_mul, signedZero, mul, Nat.mul_zero]
    exact ofUnits_zero_alike _ _ _

theorem Alike.mul (h : Alike x x') (h' : Alike y y') : Alike (x * y) (x' * y') :=
  h.map₂ h' zero_mul_alike mul_zero_alike

-- The divisor is kept, as the quotients by the two zeros are two infinities.
theorem Alike.div (h : Alike x x') (y : Binary64) : Alike (x / y) (x' / y) := by
  refine h.map (f := (· / y)) fun s t => ?_
  simp only [div_eq_div, signedZero]
  cases y with
  | nan => exact .refl _
  | infinite r =>
    rw [Binary64.div.eq_def, Binary64.div.eq_def]
    exact ofUnits_zero_alike _ _ 1
  | finite r v hv =>
    rw [Binary64.div.eq_def, Binary64.div.eq_def]
    simp only [Nat.zero_mul, if_true]
    split
    · exact .refl _
    · exact ofUnits_zero_alike _ _ v

theorem Alike.rem (h : Alike x x') (y : Binary64) : Alike (x % y) (x' % y) := by
  refine h.map (f := (· % y)) fun s t => ?_
  cases y with
  | nan => exact .refl _
  | infinite r => exact alike_zeros s t
  | finite r v hv =>
    simp only [rem_eq_rem, signedZero, Binary64.rem]
    split
    · exact .refl _
    · next hne =>
      rw [if_pos (Nat.pos_of_ne_zero hne), if_pos (Nat.pos_of_ne_zero hne)]
      exact alike_zeros s t

/-! Functions -/

theorem Alike.abs (h : Alike x y) : Alike x.abs y.abs :=
  h.map fun _ _ => .refl _

theorem Alike.rank?_eq (h : Alike x y) : x.rank? = y.rank? := by
  obtain rfl | ⟨s, t, rfl, rfl⟩ := h.eq_or_zeros
  · rfl
  · exact congrArg some ((signed_zero s).trans (signed_zero t).symm)

theorem Alike.isNaN_eq (h : Alike x y) : x.isNaN = y.isNaN := by
  obtain rfl | ⟨s, t, rfl, rfl⟩ := h.eq_or_zeros <;> rfl

theorem Alike.lt_iff (h : Alike x x') (h' : Alike y y') : x < y ↔ x' < y' := by
  change less x y = true ↔ less x' y' = true
  simp only [less, compare?, h.rank?_eq, h'.rank?_eq]

theorem Alike.le_iff (h : Alike x x') (h' : Alike y y') : x ≤ y ↔ x' ≤ y' := by
  change (less x y || same x y) = true ↔ (less x' y' || same x' y') = true
  simp only [less, same, compare?, h.rank?_eq, h'.rank?_eq]

theorem Alike.min (h : Alike x x') (h' : Alike y y') : Alike (x.min y) (x'.min y') := by
  simp only [Binary64.min, h.isNaN_eq, h'.isNaN_eq, h'.lt_iff h]
  split
  · exact h'
  split
  · exact h
  split
  · exact h'
  · exact h

theorem Alike.max (h : Alike x x') (h' : Alike y y') : Alike (x.max y) (x'.max y') := by
  simp only [Binary64.max, h.isNaN_eq, h'.isNaN_eq, h.lt_iff h']
  split
  · exact h'
  split
  · exact h
  split
  · exact h'
  · exact h

-- No way of rounding takes a zero to another whole number.
theorem Alike.roundWhole {up : Bool → Nat → Bool} (h : Alike x y) (zero : ∀ s, up s 0 = false) :
    Alike (x.roundWhole up) (y.roundWhole up) := by
  refine h.map fun s t => ?_
  simp only [signedZero, Binary64.roundWhole, Nat.zero_div, Nat.zero_mod, zero, Bool.false_eq_true,
    if_false, Nat.zero_mul]
  exact ofUnits_zero_alike s t 1

theorem Alike.floor (h : Alike x y) : Alike x.floor y.floor :=
  h.roundWhole fun s => by simp

theorem Alike.ceil (h : Alike x y) : Alike x.ceil y.ceil :=
  h.roundWhole fun s => by simp

theorem Alike.round (h : Alike x y) : Alike x.round y.round :=
  h.roundWhole fun _ => decide_eq_false (Nat.not_le.2 (Units.power_pos 1074))

end Tabletop.Binary64
