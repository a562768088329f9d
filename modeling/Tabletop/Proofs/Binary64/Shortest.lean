import Mathlib.Tactic.Ring
import Tabletop.Binary64.Shortest
import Tabletop.Proofs.Binary64.Rounding

-- The shortest decimal reads back: it lies in the interval of what is rounded to the magnitude.
namespace Tabletop

namespace Units

variable {h n u num den rest : Nat}

/-! Rounding to a given magnitude -/

-- What exceeds a magnitude by less than half the gap is rounded down to it. An even magnitude
-- takes the tie as well.
theorem nearest_of_above (hgap : gap (num / den) = h) (hdvd : h ∣ u) (hnum : num = u * den + rest)
    (hden : 0 < den) (hrest : 2 * rest < h * den ∨ 2 * rest = h * den ∧ u / h % 2 = 0) :
    nearest num den = u := by
  obtain ⟨k, rfl⟩ := hdvd
  have hpos : 0 < h := hgap ▸ gap_pos _
  have hstep : 0 < den * h := Nat.mul_pos hden hpos
  have hcomm : h * den = den * h := Nat.mul_comm h den
  have hlt : rest < den * h := by omega
  have hsplit : num = rest + den * h * k := by
    rw [hnum]
    ring
  have hwhole : num / (den * h) = k := by
    rw [hsplit, Nat.add_mul_div_left _ _ hstep, Nat.div_eq_of_lt hlt, Nat.zero_add]
  have hleft : num % (den * h) = rest := by
    rw [hsplit, Nat.add_mul_mod_self_left, Nat.mod_eq_of_lt hlt]
  rw [Nat.mul_div_cancel_left k hpos] at hrest
  simp only [nearest, hgap, hwhole, hleft]
  rw [if_neg (by omega), Nat.mul_comm]

theorem nearest_of_below (hgap : gap (num / den) = h) (hdvd : h ∣ u) (hnum : num + rest = u * den)
    (hsome : 0 < rest) (hrest : 2 * rest < h * den ∨ 2 * rest = h * den ∧ u / h % 2 = 0) :
    nearest num den = u := by
  obtain ⟨k, rfl⟩ := hdvd
  have hpos : 0 < h := hgap ▸ gap_pos _
  have hcomm : h * den = den * h := Nat.mul_comm h den
  have hden : 0 < den * h := by omega
  have hk : k ≠ 0 := by
    rintro rfl
    simp at hnum
    omega
  obtain ⟨k, rfl⟩ : ∃ m, k = m + 1 := ⟨k - 1, by omega⟩
  have hsplit : num = (den * h - rest) + den * h * k := by
    have hexpand : h * (k + 1) * den = den * h * k + den * h := by ring
    omega
  have hlt : den * h - rest < den * h := by omega
  have hwhole : num / (den * h) = k := by
    rw [hsplit, Nat.add_mul_div_left _ _ hden, Nat.div_eq_of_lt hlt, Nat.zero_add]
  have hleft : num % (den * h) = den * h - rest := by
    rw [hsplit, Nat.add_mul_mod_self_left, Nat.mod_eq_of_lt hlt]
  rw [Nat.mul_div_cancel_left _ hpos] at hrest
  simp only [nearest, hgap, hwhole, hleft]
  rw [if_pos (by omega), Nat.mul_comm]

/-! Gaps beside a magnitude -/

theorem gap_congr (hlog : n.log2 = u.log2) : gap n = gap u := by
  rw [gap, gap, hlog]

theorem add_le_of_dvd {m n d : Nat} (hm : d ∣ m) (hn : d ∣ n) (hlt : m < n) : m + d ≤ n := by
  have hle : d ≤ n - m := Nat.le_of_dvd (by omega) (Nat.dvd_sub hn hm)
  omega

theorem gap_above (hu : u ≠ 0) (hdvd : gap u ∣ u) (hle : u ≤ n) (hlt : n < u + gap u) :
    gap n = gap u := by
  have hlow : power u.log2 ≤ u := Nat.log2_self_le hu
  have hhigh : u + gap u ≤ power (u.log2 + 1) :=
    add_le_of_dvd hdvd (power_dvd_power (by omega)) Nat.lt_log2_self
  refine gap_congr ((Nat.log2_eq_iff (by omega)).2 ⟨?_, ?_⟩)
  · exact hlow.trans hle
  · exact Nat.lt_of_lt_of_le hlt hhigh

end Units

namespace Shortest

open Tabletop.Units

variable {u n : Nat}

theorem gapBelow_pos (u : Nat) : 0 < gapBelow u := by
  have hgap := gap_pos u
  unfold gapBelow
  dsimp only
  split
  · omega
  · exact hgap

-- Below a power of two the gaps are half as wide.
theorem gapBelow_power (h : 1 < gap u ∧ u = power u.log2) :
    53 ≤ u.log2 ∧ gapBelow u = power (u.log2 - 53) := by
  have hlog : 53 ≤ u.log2 := by
    by_contra hsmall
    have hone : gap u = 1 := by
      rw [gap, show u.log2 - 52 = 0 by omega]
      rfl
    omega
  refine ⟨hlog, ?_⟩
  have hhalf : gap u = 2 * power (u.log2 - 53) := by
    rw [gap, show u.log2 - 52 = 1 + (u.log2 - 53) by omega, power_add]
    rfl
  unfold gapBelow
  dsimp only
  rw [if_pos h, hhalf]
  omega

theorem gap_below (hu : u ≠ 0) (hdvd : gap u ∣ u) (hle : u ≤ n + gapBelow u) (hlt : n < u) :
    gap n = gapBelow u := by
  have hlow : power u.log2 ≤ u := Nat.log2_self_le hu
  have hhigh : u < power (u.log2 + 1) := Nat.lt_log2_self
  by_cases hpower : 1 < gap u ∧ u = power u.log2
  · obtain ⟨hlog, hbelow⟩ := gapBelow_power hpower
    have hdouble : power u.log2 = 2 * power (u.log2 - 1) := by
      rw [show u.log2 = 1 + (u.log2 - 1) by omega, power_add, Nat.add_sub_cancel_left]
      rfl
    have hsmall : power (u.log2 - 53) ≤ power (u.log2 - 1) :=
      Nat.pow_le_pow_right (by decide) (by omega)
    have hpos := power_pos (u.log2 - 53)
    rw [hbelow] at hle ⊢
    have hlogn : n.log2 = u.log2 - 1 := by
      refine (Nat.log2_eq_iff (by omega)).2 ⟨?_, ?_⟩
      · change power (u.log2 - 1) ≤ n
        omega
      · rw [Nat.sub_add_cancel (by omega)]
        change n < power u.log2
        omega
    rw [gap, hlogn]
    rfl
  · have hbelow : gapBelow u = gap u := by
      unfold gapBelow
      exact if_neg hpower
    rw [hbelow] at hle ⊢
    by_cases hone : gap u = 1
    · exact (Nat.dvd_one.1 (hone ▸ gap_dvd_gap hlt.le)).trans hone.symm
    · have hne : power u.log2 < u := by
        have hgap := gap_pos u
        omega
      have hstart : power u.log2 + gap u ≤ u :=
        add_le_of_dvd (power_dvd_power (by omega)) hdvd hne
      refine gap_congr ((Nat.log2_eq_iff ?_).2 ⟨?_, ?_⟩)
      · have hpos := power_pos u.log2
        omega
      · change power u.log2 ≤ n
        omega
      · exact hlt.trans hhigh

/-! Grids -/

variable {tie : Tie} {exponent : Int} {digits : Nat}

-- Whether a decimal is rounded to a magnitude.
def ReadsAs (digits : Nat) (exponent : Int) (u : Nat) : Prop :=
  nearest (digits * (scaled u exponent).2) (stretch exponent) = u

theorem scaled_ofNat (u e : Nat) :
    (scaled u (.ofNat e)).2 = Units.one * Nat.pow 10 e ∧ stretch (.ofNat e) = 1 := ⟨rfl, rfl⟩

-- The zeros of a whole number.
theorem ReadsAs.shift {e : Nat} (h : ReadsAs digits (.ofNat e) u) :
    ReadsAs (digits * Nat.pow 10 e) (.ofNat 0) u := by
  have hscale : digits * Nat.pow 10 e * (Units.one * Nat.pow 10 0) =
      digits * (Units.one * Nat.pow 10 e) := by
    rw [show Nat.pow 10 0 = 1 from rfl, Nat.mul_one, Nat.mul_assoc, Nat.mul_comm (Nat.pow 10 e)]
  rw [ReadsAs, (scaled_ofNat u e).1, (scaled_ofNat u e).2] at h
  rw [ReadsAs, (scaled_ofNat u 0).1, (scaled_ofNat u 0).2, hscale]
  exact h

-- All the digits of a whole number.
theorem readsAs_whole (h : Representable u) (hwhole : Units.one ∣ u) :
    ReadsAs (u / Units.one) (.ofNat 0) u := by
  have hdigits : u / Units.one * (Units.one * Nat.pow 10 0) = u := by
    rw [show Nat.pow 10 0 = 1 from rfl, Nat.mul_one, Nat.div_mul_cancel hwhole]
  rw [ReadsAs, (scaled_ofNat u 0).1, (scaled_ofNat u 0).2, hdigits]
  exact nearest_of_gap_dvd h.2

theorem scaled_eq (u : Nat) (exponent : Int) : (scaled u exponent).1 = u * stretch exponent := by
  cases exponent with
  | ofNat e => exact (Nat.mul_one u).symm
  | negSucc e => rfl

theorem stretch_pos (exponent : Int) : 0 < stretch exponent := by
  cases exponent with
  | ofNat e => exact Nat.one_pos
  | negSucc e => exact Nat.pow_pos (by decide)

theorem gapBelow_dvd (hdvd : gap u ∣ u) :
    gapBelow u ∣ u ∧ (u / gap u % 2 = 0 → u / gapBelow u % 2 = 0) := by
  by_cases hpower : 1 < gap u ∧ u = power u.log2
  · obtain ⟨hlog, hbelow⟩ := gapBelow_power hpower
    have hdouble : gap u = gapBelow u * 2 := by
      rw [hbelow, gap, show u.log2 - 52 = (u.log2 - 53) + 1 by omega, power_add]
      rfl
    obtain ⟨k, hk⟩ := hdvd
    have hsplit : u = gapBelow u * (2 * k) := by
      rw [← Nat.mul_assoc, ← hdouble]
      exact hk
    refine ⟨⟨_, hsplit⟩, fun _ => ?_⟩
    rw [Nat.div_eq_of_eq_mul_right (gapBelow_pos u) hsplit]
    exact Nat.mul_mod_right 2 k
  · have hbelow : gapBelow u = gap u := by
      unfold gapBelow
      exact if_neg hpower
    rw [hbelow]
    exact ⟨hdvd, id⟩

-- A decimal below the magnitude that is no further from it than half the gap is rounded to it.
theorem readsAs_low (hu : u ≠ 0) (hdvd : gap u ∣ u) {rest : Nat}
    (hdigits : digits * (scaled u exponent).2 + rest = u * stretch exponent)
    (hreach : 2 * rest < gapBelow u * stretch exponent ∨
      2 * rest = gapBelow u * stretch exponent ∧ u / gap u % 2 = 0) :
    ReadsAs digits exponent u := by
  have hden := stretch_pos exponent
  rw [ReadsAs]
  generalize digits * (scaled u exponent).2 = num at hdigits ⊢
  generalize stretch exponent = den at hdigits hreach hden ⊢
  by_cases hsome : rest = 0
  · have hnum : num = u * den + 0 := by omega
    have hquotient : num / den = u := by rw [hnum, Nat.add_zero, Nat.mul_div_cancel u hden]
    refine nearest_of_above (by rw [hquotient]) hdvd hnum hden (.inl ?_)
    exact Nat.mul_pos (gap_pos u) hden
  · obtain ⟨hbelow, heven⟩ := gapBelow_dvd hdvd
    have hlt : num / den < u := Nat.div_lt_of_lt_mul (by rw [Nat.mul_comm]; omega)
    have hle : u - gapBelow u ≤ num / den := by
      rw [Nat.le_div_iff_mul_le hden, Nat.sub_mul]
      omega
    exact nearest_of_below (gap_below hu hdvd (by omega) hlt) hbelow hdigits (by omega)
      (hreach.imp_right fun h => ⟨h.1, heven h.2⟩)

theorem readsAs_high (hu : u ≠ 0) (hdvd : gap u ∣ u) {rest : Nat}
    (hdigits : digits * (scaled u exponent).2 = u * stretch exponent + rest)
    (hreach : 2 * rest < gap u * stretch exponent ∨
      2 * rest = gap u * stretch exponent ∧ u / gap u % 2 = 0) :
    ReadsAs digits exponent u := by
  have hden := stretch_pos exponent
  rw [ReadsAs]
  generalize digits * (scaled u exponent).2 = num at hdigits ⊢
  generalize stretch exponent = den at hdigits hreach hden ⊢
  have hwide : 0 < gap u * den := Nat.mul_pos (gap_pos u) hden
  have hle : u ≤ num / den := (Nat.le_div_iff_mul_le hden).2 (by omega)
  have hlt : num / den < u + gap u := (Nat.div_lt_iff_lt_mul hden).2 (by rw [Nat.add_mul]; omega)
  exact nearest_of_above (gap_above hu hdvd hle hlt) hdvd hdigits hden hreach

theorem scaled_pos (u : Nat) (exponent : Int) : 0 < (scaled u exponent).2 := by
  have hone : 0 < Units.one := power_pos 1074
  cases exponent with
  | ofNat e =>
    have hpow : 0 < Nat.pow 10 e := Nat.pow_pos (by decide)
    exact Nat.mul_pos hone hpow
  | negSucc e => simpa only [scaled] using hone

theorem of_reaches {distance reach : Nat}
    (h : (decide (2 * distance < reach) || (u / gap u % 2 == 0 && 2 * distance == reach)) = true) :
    2 * distance < reach ∨ 2 * distance = reach ∧ u / gap u % 2 = 0 := by
  simpa [and_comm] using h

-- Whichever of the two neighbours is taken, it reaches the magnitude.
theorem onGrid?_readsAs (hu : u ≠ 0) (hdvd : gap u ∣ u)
    (h : onGrid? tie u exponent = some digits) : ReadsAs digits exponent u := by
  have hden := scaled_pos u exponent
  have hsplit := Nat.div_add_mod' (u * stretch exponent) (scaled u exponent).2
  have hrest := Nat.mod_lt (u * stretch exponent) hden
  have habove : (u * stretch exponent / (scaled u exponent).2 + 1) * (scaled u exponent).2 =
      u * stretch exponent +
        ((scaled u exponent).2 - u * stretch exponent % (scaled u exponent).2) := by
    rw [Nat.add_mul, Nat.one_mul]
    omega
  simp only [onGrid?, scaled_eq] at h
  split at h
  · next hboth =>
    rw [Bool.and_eq_true] at hboth
    have hlow := readsAs_low hu hdvd hsplit (of_reaches hboth.1)
    have hhigh := readsAs_high hu hdvd habove (of_reaches hboth.2)
    split at h
    · exact Option.some.inj h ▸ hlow
    split at h
    · exact Option.some.inj h ▸ hhigh
    cases tie with
    | up => exact Option.some.inj h ▸ hhigh
    | even =>
      dsimp only at h
      split at h
      · exact Option.some.inj h ▸ hlow
      · exact Option.some.inj h ▸ hhigh
  split at h
  · next hlow =>
    exact Option.some.inj h ▸ readsAs_low hu hdvd hsplit (of_reaches hlow)
  split at h
  · next hhigh =>
    exact Option.some.inj h ▸ readsAs_high hu hdvd habove (of_reaches hhigh)
  · cases h

theorem gapBelow_le (u : Nat) : power (u.log2 - 53) ≤ gapBelow u ∧ gapBelow u ≤ gap u := by
  by_cases hpower : 1 < gap u ∧ u = power u.log2
  · obtain ⟨hlog, hbelow⟩ := gapBelow_power hpower
    rw [hbelow]
    exact ⟨Nat.le_refl _, Nat.pow_le_pow_right (by decide) (by omega)⟩
  · have hbelow : gapBelow u = gap u := by
      unfold gapBelow
      exact if_neg hpower
    rw [hbelow]
    exact ⟨Nat.pow_le_pow_right (by decide) (by omega), Nat.le_refl _⟩

-- On a grid that is finer than the gap one of the neighbours reaches the magnitude.
theorem onGrid?_of_fine (tie : Tie)
    (hfine : (scaled u exponent).2 < power (u.log2 - 53) * stretch exponent) :
    ∃ digits, onGrid? tie u exponent = some digits := by
  obtain ⟨hleast, hmost⟩ := gapBelow_le u
  have hlow := Nat.mul_le_mul_right (stretch exponent) hleast
  have hhigh := Nat.mul_le_mul_right (stretch exponent) hmost
  have hrest := Nat.mod_lt (u * stretch exponent) (scaled_pos u exponent)
  rw [← Option.ne_none_iff_exists']
  intro hnone
  simp only [onGrid?, scaled_eq] at hnone
  split at hnone
  · split at hnone
    · cases hnone
    split at hnone
    · cases hnone
    cases tie <;> cases hnone
  split at hnone
  · cases hnone
  split at hnone
  · cases hnone
  · next hlow' hhigh' =>
    simp only [Bool.or_eq_true, decide_eq_true_eq, not_or] at hlow' hhigh'
    omega

theorem descend_onGrid? {n : Nat} (h : ∃ k < n, ∃ digits, onGrid? tie u (exponent - k) = some digits) :
    onGrid? tie u (descend tie u n exponent).exponent = some (descend tie u n exponent).digits ∧
      exponent - n < (descend tie u n exponent).exponent ∧
      (descend tie u n exponent).exponent ≤ exponent := by
  induction n generalizing exponent with
  | zero => omega
  | succ n ih =>
    rw [descend]
    cases hgrid : onGrid? tie u exponent with
    | some digits =>
      dsimp only
      exact ⟨hgrid, by omega, Int.le_refl _⟩
    | none =>
      obtain ⟨k, hk, digits, hdigits⟩ := h
      have hlater : k ≠ 0 := by
        rintro rfl
        simp [hgrid] at hdigits
      have hnext : exponent - 1 - ((k - 1 : Nat) : Int) = exponent - k := by omega
      obtain ⟨hfound, hbelow, habove⟩ := ih ⟨k - 1, by omega, digits, hnext ▸ hdigits⟩
      dsimp only
      exact ⟨hfound, by omega, by omega⟩

theorem scaled_snd (u : Nat) (exponent : Int) : (scaled u exponent).2 = (scaled 0 exponent).2 := by
  cases exponent <;> rfl

-- The last grid that is tried is fine enough for all magnitudes of one length.
theorem fine_of_log2 : ∀ log : Nat, log < 2098 →
    (scaled 0 (((log : Int) - 1073) * 30103 / 100000 + 1 - (19 : Nat))).2 <
      power (log - 53) * stretch (((log : Int) - 1073) * 30103 / 100000 + 1 - (19 : Nat)) := by
  decide +kernel

theorem decimal_onGrid? (tie : Tie) (hu : u ≠ 0) (h : Representable u) :
    onGrid? tie u (decimal tie u).exponent = some (decimal tie u).digits ∧
      -400 < (decimal tie u).exponent ∧ (decimal tie u).exponent < 400 := by
  have hlog : u.log2 < 2098 := (log2_lt_iff hu).2 h.1
  have hfine : (scaled u (coarse u - (19 : Nat))).2 <
      power (u.log2 - 53) * stretch (coarse u - (19 : Nat)) := by
    rw [scaled_snd]
    exact fine_of_log2 u.log2 hlog
  have hlast : ∃ k < 20, ∃ digits, onGrid? tie u (coarse u - (k : Nat)) = some digits :=
    ⟨19, by decide, onGrid?_of_fine tie hfine⟩
  obtain ⟨hfound, hbelow, habove⟩ := descend_onGrid? hlast
  rw [decimal]
  refine ⟨hfound, ?_, ?_⟩
  · rw [coarse] at hbelow ⊢
    omega
  · rw [coarse] at habove ⊢
    omega

theorem decimal_readsAs (tie : Tie) (hu : u ≠ 0) (h : Representable u) :
    ReadsAs (decimal tie u).digits (decimal tie u).exponent u :=
  onGrid?_readsAs hu h.2 (decimal_onGrid? tie hu h).1

end Shortest

namespace Binary64

open Shortest

variable {u num den digits : Nat} {exponent : Int}

theorem ofUnits_of_nearest (h : Units.Representable u) (negative : Bool)
    (hnearest : Units.nearest num den = u) : ofUnits negative num den = finite negative u h := by
  subst hnearest
  simp only [ofUnits, dif_pos h.1]

-- A decimal that is rounded to a magnitude is read as it.
theorem ofDecimal_of_readsAs (hu : u ≠ 0) (h : Units.Representable u)
    (hreads : ReadsAs digits exponent u) (hlow : -800 ≤ exponent) (hhigh : exponent ≤ 400)
    (negative : Bool) : ofDecimal negative digits exponent = finite negative u h := by
  have hdigits : digits ≠ 0 := by
    rintro rfl
    refine hu ?_
    rw [← hreads, Nat.zero_mul]
    simp [Units.nearest]
  have hsize : ¬ (digits.log2 : Int) / 3 + exponent < -800 := by omega
  unfold ofDecimal
  dsimp only
  rw [if_neg hdigits, if_neg (by omega), if_neg hsize]
  cases exponent with
  | ofNat e =>
    have hscale : digits * Nat.pow 10 e * Units.one = digits * (Units.one * Nat.pow 10 e) := by
      rw [Nat.mul_assoc, Nat.mul_comm (Nat.pow 10 e)]
    simp only [ReadsAs, scaled, stretch, ← hscale] at hreads
    exact ofUnits_of_nearest h negative hreads
  | negSucc e =>
    simp only [ReadsAs, scaled, stretch] at hreads
    exact ofUnits_of_nearest h negative hreads

end Binary64

end Tabletop
