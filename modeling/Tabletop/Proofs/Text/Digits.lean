import Mathlib.Algebra.Group.Nat.Defs
import Tabletop.Text.Basic

-- The numbers that runs of digits stand for.
namespace Tabletop.Text

variable {digits : List Char}

theorem ofDigits_toDigits (n : Nat) : ofDigits (Nat.toDigits 10 n) = n :=
  Nat.ofDigitChars_ten_toDigits

theorem ofDigits_append (v w : List Char) :
    ofDigits (v ++ w) = 10 ^ w.length * ofDigits v + ofDigits w := by
  change Nat.ofDigitChars 10 (v ++ w) 0 = _
  rw [Nat.ofDigitChars_append, Nat.ofDigitChars_eq_ofDigitChars_zero]
  rfl

theorem ofDigits_replicate (n : Nat) : ofDigits (List.replicate n '0') = 0 := by
  change Nat.ofDigitChars 10 (List.replicate n '0') 0 = 0
  rw [Nat.ofDigitChars_replicate_zero, Nat.mul_zero]

-- More digits make a larger number.
theorem le_ofDigitChars (digits : List Char) (seen : Nat) :
    seen ≤ Nat.ofDigitChars 10 digits seen := by
  rw [Nat.ofDigitChars_eq_ofDigitChars_zero]
  have hpow : 0 < 10 ^ digits.length := Nat.pow_pos (by decide)
  exact Nat.le_trans (Nat.le_mul_of_pos_left seen hpow) (Nat.le_add_right _ _)

theorem ofDigits_lt (h : ∀ c ∈ digits, isDigit c = true) : ofDigits digits < 10 ^ digits.length := by
  induction digits with
  | nil => decide
  | cons c digits ih =>
    rw [List.forall_mem_cons] at h
    have hrest := ih h.2
    have hdigit : digitValue c ≤ 9 := by
      simp only [isDigit, Bool.and_eq_true, decide_eq_true_eq] at h
      have hmost : c.toNat ≤ 57 := h.1.2
      exact Nat.sub_le_sub_right hmost 48
    have hone : ofDigits [c] = digitValue c := Nat.zero_add _
    have hmul := Nat.mul_le_mul_left (10 ^ digits.length) hdigit
    rw [← List.singleton_append, ofDigits_append, hone, List.length_append, List.length_singleton,
      Nat.add_comm 1, Nat.pow_succ]
    omega

/-! Numbers within a limit -/

variable {limit n : Nat} {s : String}

end Tabletop.Text
