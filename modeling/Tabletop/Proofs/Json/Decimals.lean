import Mathlib.Tactic.Ring
import Tabletop.Proofs.Binary64.Alike
import Tabletop.Proofs.Json.Numbers
import Tabletop.Proofs.Text.Runs

-- Numbers of few digits are read from documents as what they are: the digits and the power of ten
-- are exact, so that the quotient is the only thing that is rounded.
namespace Tabletop

open Tabletop.Text

namespace Units

variable {k n num den : Nat}

-- What is rounded is the quotient.
theorem nearest_mul_right (num den : Nat) (hk : 0 < k) :
    nearest (num * k) (den * k) = nearest num den := by
  have hquotient : num * k / (den * k) = num / den := Nat.mul_div_mul_right num den hk
  have hwhole (step : Nat) : num * k / (den * k * step) = num / (den * step) := by
    rw [Nat.mul_right_comm, Nat.mul_div_mul_right _ _ hk]
  have hrest (step : Nat) : num * k % (den * k * step) = num % (den * step) * k := by
    rw [Nat.mul_right_comm, Nat.mul_mod_mul_right]
  have hscale (step : Nat) : den * k * step = den * step * k := Nat.mul_right_comm den k step
  simp only [nearest, hquotient, hwhole, hrest]
  rw [hscale, ← Nat.mul_assoc]
  simp only [Nat.mul_lt_mul_right hk, Nat.mul_left_inj hk.ne']

theorem representable_mul_one (h : n < power 53) : Representable (n * one) := by
  refine ⟨?_, gap_dvd_of_log2 h⟩
  have hlt : n * one < power 53 * one := Nat.mul_lt_mul_of_pos_right h (power_pos 1074)
  have hlimit : power 53 * one ≤ limit := by decide +kernel
  exact Nat.lt_of_lt_of_le hlt hlimit

theorem representable_pow_ten : ∀ k < 23, Representable (Nat.pow 10 k * one) := by decide +kernel

end Units

namespace Binary64

theorem ofUnits_neg (num den : Nat) : (ofUnits false num den).neg = ofUnits true num den := by
  unfold ofUnits
  dsimp only
  split <;> rfl

theorem ofDecimal_neg (mantissa : Nat) (exponent : Int) :
    (ofDecimal false mantissa exponent).neg = ofDecimal true mantissa exponent := by
  unfold ofDecimal
  dsimp only
  split
  · exact ofUnits_neg 0 1
  split
  · rfl
  split
  · exact ofUnits_neg 0 1
  cases exponent with
  | ofNat e => exact ofUnits_neg _ _
  | negSucc e => exact ofUnits_neg _ _

theorem ofDecimal_signed (negative : Bool) (mantissa : Nat) (exponent : Int) :
    ofDecimal negative mantissa exponent =
      if negative then (ofDecimal false mantissa exponent).neg
      else ofDecimal false mantissa exponent := by
  cases negative with
  | false => rw [if_neg Bool.false_ne_true]
  | true => rw [if_pos rfl, ofDecimal_neg]

theorem ofInt_natCast (n : Nat) : ofInt n = ofNat n := by
  rw [ofInt, ofNat, decide_eq_false (by omega), Int.natAbs_natCast]

theorem ofInt_neg {n : Nat} (hn : 0 < n) : ofInt (-n) = (ofNat n).neg := by
  rw [ofInt, ofNat, ofUnits_neg, decide_eq_true (by omega), Int.natAbs_neg, Int.natAbs_natCast]

theorem ofUnits_congr {num den num' den' : Nat}
    (h : Units.nearest num den = Units.nearest num' den') (negative : Bool) :
    ofUnits negative num den = ofUnits negative num' den' := by
  simp only [ofUnits, h]

theorem ofDecimal_whole (n : Nat) : ofDecimal false n 0 = ofNat n := by
  change ofDecimal false n (.ofNat 0) = _
  rw [ofNat]
  unfold ofDecimal
  dsimp only
  by_cases hn : n = 0
  · rw [if_pos hn, hn, Nat.zero_mul]
  · have hsize : ¬ (n.log2 : Int) / 3 + Int.ofNat 0 < -800 := by
      simp only [Int.ofNat_eq_natCast]
      omega
    rw [if_neg hn, if_neg (by decide), if_neg hsize, show Nat.pow 10 0 = 1 from rfl, Nat.mul_one]

theorem finite_div_finite {s t : Bool} {u v : Nat} (hu : Units.Representable u)
    (hv : Units.Representable v) (hne : v ≠ 0) :
    finite s u hu / finite t v hv = ofUnits (s != t) (u * Units.one) v := if_neg hne

-- The quotient of two exact numbers is rounded once.
theorem ofNat_div_ofNat {m n : Nat} (hm : Units.Representable (m * Units.one))
    (hn : Units.Representable (n * Units.one)) (hpos : 0 < n) :
    ofNat m / ofNat n = ofUnits false (m * Units.one) n := by
  have hone : 0 < Units.one := Units.power_pos 1074
  have hne : n * Units.one ≠ 0 := Nat.mul_ne_zero hpos.ne' hone.ne'
  rw [ofNat, ofNat, ofUnits_of_representable hm, ofUnits_of_representable hn,
    finite_div_finite hm hn hne]
  exact ofUnits_congr (Units.nearest_mul_right _ _ hone) false

theorem ofDecimal_fraction (m : Nat) {k : Nat} (hk : 0 < k) (hfew : k < 23) :
    ofDecimal false m (-(k : Int)) = ofUnits false (m * Units.one) (Nat.pow 10 k) := by
  obtain ⟨e, rfl⟩ : ∃ e, k = e + 1 := ⟨k - 1, by omega⟩
  change ofDecimal false m (.negSucc e) = _
  unfold ofDecimal
  dsimp only
  by_cases hm : m = 0
  · rw [if_pos hm, hm, Nat.zero_mul, ofUnits_zero, ofUnits_zero]
  · have hsize : ¬ (m.log2 : Int) / 3 + Int.negSucc e < -800 := by omega
    rw [if_neg hm, if_neg (by omega), if_neg hsize]

end Binary64

namespace Json

variable {negative : Bool} {w f digits left : List Char} {j : Json}

theorem significand_of_le {seen : Nat}
    (h : Nat.ofDigitChars 10 digits seen ≤ Bits.greatest 64) :
    significand seen digits = (Nat.ofDigitChars 10 digits seen, 0) := by
  induction digits generalizing seen with
  | nil => rfl
  | cons c digits ih =>
    rw [Nat.ofDigitChars_cons] at h ⊢
    have hnext : 10 * seen + digitValue c ≤ Bits.greatest 64 := (le_ofDigitChars digits _).trans h
    rw [significand, if_pos hnext]
    exact ih h

-- The power of ten is exact.
theorem scaleDecimal?_of_few {m n k : Nat} {x : Binary64} (hm : m < Units.power 53) (hk : 0 < k)
    (hfew : k < 23) (h : scaleDecimal? negative (Binary64.ofNat m) (n + 1) (-(k : Int)) = some x) :
    x = Binary64.ofDecimal negative m (-(k : Int)) := by
  have hquotient : Binary64.ofNat m / Binary64.ofNat (Nat.pow 10 k) =
      Binary64.ofDecimal false m (-(k : Int)) := by
    rw [Binary64.ofDecimal_fraction m hk hfew]
    exact Binary64.ofNat_div_ofNat (Units.representable_mul_one hm)
      (Units.representable_pow_ten k hfew) (Nat.pow_pos (by decide))
  simp only [scaleDecimal?, Int.natAbs_neg, Int.natAbs_natCast] at h
  rw [if_pos (show k ≤ 308 by omega), if_neg (show ¬ (0 : Int) ≤ -(k : Int) by omega),
    hquotient] at h
  split at h
  · rw [Binary64.ofDecimal_signed negative]
    exact (Option.some.inj h).symm
  · cases h

-- All digits are taken.
theorem realValue?_of_few (hw : ∀ c ∈ w, isDigit c = true) (hf : ∀ c ∈ f, isDigit c = true)
    (hsome : f ≠ []) (hfew : (w ++ f).length ≤ 15) {x : Binary64}
    (h : realValue? negative w f 0 = some x) :
    x = Binary64.ofDecimal negative (ofDigits (w ++ f)) (-(f.length : Int)) := by
  have hlt := ofDigits_lt (List.forall_mem_append.2 ⟨hw, hf⟩)
  have hpow : 10 ^ (w ++ f).length ≤ 10 ^ 15 := Nat.pow_le_pow_right (by decide) hfew
  have hbits : 10 ^ 15 ≤ Units.power 53 ∧ Units.power 53 ≤ Bits.greatest 64 := by decide
  have htaken : Nat.ofDigitChars 10 f (ofDigits w) = ofDigits (w ++ f) :=
    (Nat.ofDigitChars_append 0).symm
  have hle : ofDigits w ≤ ofDigits (w ++ f) := htaken ▸ le_ofDigitChars f (ofDigits w)
  have hwhole : significand 0 w = (ofDigits w, 0) :=
    significand_of_le (show ofDigits w ≤ _ by omega)
  have hfraction : significand (ofDigits w) f = (ofDigits (w ++ f), 0) := by
    rw [← htaken]
    exact significand_of_le (by omega)
  have hlength : 0 < f.length := List.length_pos_iff.2 hsome
  rw [List.length_append] at hfew
  simp only [realValue?, hwhole, hfraction, Nat.sub_zero, Nat.cast_zero, zero_sub, add_zero] at h
  exact scaleDecimal?_of_few (by omega) hlength (by omega) h

-- Without a point all that fits into 64 bits is whole, but for zero below zero.
theorem numberOf?_whole (hfits : ofDigits w ≤ Bits.greatest 64)
    (h : numberOf? negative w none none = some j) :
    j.toNumber? = some (if negative then (Binary64.ofNat (ofDigits w)).neg
      else Binary64.ofNat (ofDigits w)) := by
  simp only [numberOf?] at h
  rw [if_neg (by omega)] at h
  cases negative with
  | false =>
    obtain rfl := Option.some.inj h
    rw [toNumber?, Binary64.ofInt_natCast, if_neg Bool.false_ne_true]
  | true =>
    rw [if_neg (by decide)] at h
    split at h
    · obtain rfl := Option.some.inj h
      rw [toNumber?, if_pos rfl]
    · next hsome =>
      obtain rfl := Option.some.inj h
      have hpos : 0 < ofDigits w := by
        refine Nat.pos_of_ne_zero fun hzero => hsome ?_
        rw [decide_eq_true hzero, Bool.true_or]
      rw [toNumber?, Binary64.ofInt_neg hpos, if_pos rfl]

theorem toNumber?_of_whole (hw : ∀ c ∈ w, isDigit c = true) (hfits : ofDigits w ≤ Bits.greatest 64)
    (h : unsigned? negative w = some (j, left)) :
    j.toNumber? = some (Binary64.ofDecimal negative (ofDigits w) 0) := by
  simp only [unsigned?, Binary64.digitRun_eq_self hw] at h
  split at h
  · cases h
  · simp only [fraction?, exponent?, bind, Option.bind_eq_some_iff, Option.bind_some] at h
    obtain ⟨number, hnumber, hpure⟩ := h
    cases hpure
    rw [numberOf?_whole hfits hnumber, Binary64.ofDecimal_signed negative, Binary64.ofDecimal_whole]

theorem digitRun_point (hw : ∀ c ∈ w, isDigit c = true) (f : List Char) :
    Binary64.digitRun (w ++ '.' :: f) = (w, '.' :: f) := by
  have hpoint : ∀ c ∈ ('.' :: f).head?, isDigit c = false := by simp [isDigit]
  rw [Binary64.digitRun, takeWhile_run hw hpoint, dropWhile_run hw hpoint]

theorem fraction?_point (hf : ∀ c ∈ f, isDigit c = true) (hsome : f ≠ []) :
    fraction? ('.' :: f) = some (some f, []) := by
  simp [fraction?, Binary64.digitRun_eq_self hf, hsome]

theorem toNumber?_of_point (hw : ∀ c ∈ w, isDigit c = true) (hf : ∀ c ∈ f, isDigit c = true)
    (hsome : f ≠ []) (hfew : (w ++ f).length ≤ 15)
    (h : unsigned? negative (w ++ '.' :: f) = some (j, left)) :
    j.toNumber? = some (Binary64.ofDecimal negative (ofDigits (w ++ f)) (-(f.length : Int))) := by
  simp only [unsigned?, digitRun_point hw, fraction?_point hf hsome] at h
  split at h
  · cases h
  · simp only [exponent?, bind, Option.bind_eq_some_iff, Option.bind_some] at h
    obtain ⟨number, hnumber, hpure⟩ := h
    cases hpure
    obtain ⟨x, hx, rfl⟩ := Option.map_eq_some_iff.1 hnumber
    rw [realValue?_of_few hw hf hsome hfew hx]
    rfl

end Json

end Tabletop
