import Tabletop.Binary64.Text

-- Rounding does not carry a magnitude past a representable one, so that taking away at most what
-- is there leaves neither a debt nor more than before.
namespace Tabletop

namespace Units

variable {m n : Nat}

-- Neighbours of smaller magnitudes are closer together.
theorem gap_dvd_gap (h : m ≤ n) : gap m ∣ gap n := by
  have hlog : m.log2 ≤ n.log2 := by
    by_cases hm : m = 0
    · subst hm
      simp
    · have hn : n ≠ 0 := by omega
      exact (Nat.le_log2 hn).2 (Nat.le_trans (Nat.log2_self_le hm) h)
  exact power_dvd_power (by omega)

theorem nearest_of_gap_dvd (h : gap n ∣ n) : nearest n 1 = n := by
  have hrest : n % gap n = 0 := Nat.mod_eq_zero_of_dvd h
  have hpos := gap_pos n
  simp only [nearest, Nat.div_one, Nat.one_mul, hrest]
  rw [if_neg (by omega)]
  exact Nat.div_mul_cancel h

-- The next multiple of the gap is still at most `n`, as the gap divides `n` as well.
theorem nearest_le_of_gap_dvd (hn : gap n ∣ n) (h : m ≤ n) : nearest m 1 ≤ n := by
  by_cases heq : m = n
  · subst heq
    exact Nat.le_of_eq (nearest_of_gap_dvd hn)
  · obtain ⟨k, hk⟩ := Nat.dvd_trans (gap_dvd_gap h) hn
    have hpos := gap_pos m
    have hwhole : m / gap m < k := (Nat.div_lt_iff_lt_mul hpos).2 (by
      rw [Nat.mul_comm, ← hk]
      omega)
    have hup : (m / gap m + 1) * gap m ≤ n := by
      rw [hk, Nat.mul_comm (gap m)]
      exact Nat.mul_le_mul_right _ hwhole
    have hdown : m / gap m * gap m ≤ (m / gap m + 1) * gap m :=
      Nat.mul_le_mul_right _ (Nat.le_succ _)
    simp only [nearest, Nat.div_one, Nat.one_mul]
    split
    · exact hup
    · exact Nat.le_trans hdown hup

end Units

namespace Binary64

variable {x y : Binary64} {a b : Int}

theorem less_iff_rank (hx : x.rank? = some a) (hy : y.rank? = some b) : x < y ↔ a < b := by
  change (less x y = true) ↔ _
  simp only [less, compare?, hx, hy, beq_iff_eq, Option.some.injEq]
  exact Int.compare_eq_lt

theorem le_iff_rank (hx : x.rank? = some a) (hy : y.rank? = some b) : x ≤ y ↔ a ≤ b := by
  change ((less x y || same x y) = true) ↔ _
  simp only [less, same, compare?, hx, hy, Bool.or_eq_true, beq_iff_eq, Option.some.injEq,
    Int.compare_eq_lt, Int.compare_eq_eq]
  omega

theorem same_iff_rank (hx : x.rank? = some a) (hy : y.rank? = some b) : x.same y = true ↔ a = b := by
  simp only [same, compare?, hx, hy, beq_iff_eq, Option.some.injEq]
  exact Int.compare_eq_eq

theorem rank_zero : rank? 0 = some 0 := by decide +kernel

@[simp] theorem not_lt_nan : ¬ x < nan := by
  change ¬ (less x nan = true)
  simp [less, compare?, rank?]

@[simp] theorem not_nan_lt : ¬ nan < x := by
  change ¬ (less nan x = true)
  simp [less, compare?, rank?]

@[simp] theorem not_le_nan : ¬ x ≤ nan := by
  change ¬ ((less x nan || same x nan) = true)
  simp [less, same, compare?, rank?]

@[simp] theorem not_nan_le : ¬ nan ≤ x := by
  change ¬ ((less nan x || same nan x) = true)
  simp [less, same, compare?, rank?]

theorem le_of_not_lt (hx : x ≠ nan) (hy : y ≠ nan) (h : ¬ x < y) : y ≤ x := by
  have hranked : ∀ z : Binary64, z ≠ nan → ∃ r, z.rank? = some r := by
    intro z hz
    cases z with
    | finite | infinite => exact ⟨_, rfl⟩
    | nan => exact absurd rfl hz
  obtain ⟨a, ha⟩ := hranked x hx
  obtain ⟨b, hb⟩ := hranked y hy
  rw [less_iff_rank ha hb] at h
  rw [le_iff_rank hb ha]
  omega

theorem sub_eq_add (x y : Binary64) : x - y = add x y.neg := rfl

@[simp] theorem nan_sub : nan - x = nan := by
  cases x <;> rfl

@[simp] theorem sub_nan : x - nan = nan := by
  cases x <;> rfl

@[simp] theorem isFinite_neg (x : Binary64) : x.neg.isFinite = x.isFinite := by
  cases x <;> rfl

theorem ofUnits_of_representable {negative : Bool} {n : Nat} (h : Units.Representable n) :
    ofUnits negative n 1 = finite negative n h := by
  have hnearest : Units.nearest n 1 = n := Units.nearest_of_gap_dvd h.2
  simp only [ofUnits, hnearest, dif_pos h.1]

theorem ofUnits_of_le (negative : Bool) {m n : Nat} (hn : Units.Representable n) (h : m ≤ n) :
    ∃ units fits, ofUnits negative m 1 = finite negative units fits ∧ units ≤ n ∧
      (m = 0 → units = 0) := by
  have hle : Units.nearest m 1 ≤ n := Units.nearest_le_of_gap_dvd hn.2 h
  have hfits : Units.nearest m 1 < Units.limit := Nat.lt_of_le_of_lt hle hn.1
  refine ⟨Units.nearest m 1, ⟨hfits, Units.gap_dvd_nearest m 1⟩, ?_, hle, ?_⟩
  · simp only [ofUnits, dif_pos hfits]
  · intro hm
    subst hm
    exact Units.nearest_of_gap_dvd (Nat.dvd_zero _)

theorem natAbs_signed (negative : Bool) (n : Nat) : (signed negative n).natAbs = n := by
  cases negative <;> simp [signed]

theorem signed_not (negative : Bool) (n : Nat) : signed (!negative) n = -signed negative n := by
  cases negative <;> simp [signed]

theorem signed_le (negative : Bool) (n : Nat) : signed negative n ≤ n := by
  cases negative <;> simp only [signed] <;> grind

theorem isFinite_of_between (hy : y.isFinite = true) (hnonneg : 0 ≤ x) (hle : x ≤ y) :
    x.isFinite = true := by
  cases y with
  | infinite | nan => cases hy
  | finite s u hu =>
    cases x with
    | finite => rfl
    | infinite t =>
      have hlimit := hu.1
      have hmost := signed_le s u
      rw [le_iff_rank rank_zero rfl] at hnonneg
      rw [le_iff_rank rfl rfl] at hle
      cases t <;> simp only [signed] at hnonneg hle hmost <;> grind
    | nan => simp at hle

theorem le_of_lt (h : x < y) : x ≤ y := by
  change (less x y || same x y) = true
  rw [Bool.or_eq_true]
  exact .inl h

theorem le_refl (hx : x.isFinite = true) : x ≤ x := by
  cases x with
  | finite s u hu => exact (le_iff_rank rfl rfl).2 (Int.le_refl (signed s u))
  | infinite | nan => cases hx

theorem le_trans {z : Binary64} (h : x ≤ y) (h' : y ≤ z) : x ≤ z := by
  cases hx : x.rank? with
  | none => cases x <;> simp_all [rank?]
  | some a =>
    cases hy : y.rank? with
    | none => cases y <;> simp_all [rank?]
    | some b =>
      cases hz : z.rank? with
      | none => cases z <;> simp_all [rank?]
      | some c =>
        rw [le_iff_rank hx hy] at h
        rw [le_iff_rank hy hz] at h'
        rw [le_iff_rank hx hz]
        omega

-- What is taken lies between nothing and all, and so does what is left.
theorem sub_between (hx : x.isFinite = true) (hnonneg : 0 ≤ y) (hle : y ≤ x) :
    0 ≤ x - y ∧ x - y ≤ x := by
  cases y with
  | infinite | nan => cases isFinite_of_between hx hnonneg hle
  | finite t v hv =>
    cases x with
    | infinite | nan => cases hx
    | finite s u hu =>
      have hrank : rank? (finite s u hu) = some (signed s u) := rfl
      have hu' := signed_le s u
      rw [le_iff_rank rank_zero rfl] at hnonneg
      rw [le_iff_rank rfl hrank] at hle
      rw [sub_eq_add, neg, add]
      simp only [signed_not]
      generalize hdiff : signed s u + -signed t v = diff
      generalize hsign : (if diff = 0 then s && !t else decide (diff < 0)) = negative
      have hbelow : diff.natAbs ≤ u := by omega
      obtain ⟨units, fits, heq, hunits, hzero⟩ := ofUnits_of_le negative hu hbelow
      have hranked : rank? (finite negative units fits) = some (signed negative units) := rfl
      rw [heq, le_iff_rank rank_zero hranked, le_iff_rank hranked hrank]
      -- Only a difference of zero can carry a sign.
      have hpositive : 0 ≤ signed negative units ∧ signed negative units = units := by
        by_cases hdiff0 : diff = 0
        · have hunits0 : units = 0 := hzero (by simp [hdiff0])
          subst hunits0
          cases negative <;> decide
        · have hnegative : negative = false := by
            rw [← hsign, if_neg hdiff0]
            simp only [decide_eq_false_iff_not]
            omega
          subst hnegative
          exact ⟨Int.natCast_nonneg units, rfl⟩
      have hless : (units : Int) ≤ signed s u := by
        cases s with
        | false => exact Int.ofNat_le.2 hunits
        | true =>
          have hminus : signed true u = -u := rfl
          omega
      exact ⟨hpositive.1, by omega⟩

-- A difference that is a number is not rounded.
theorem rank_sub {a b : Int} (hx : x.isFinite = true) (hy : y.isFinite = true)
    (ha : x.rank? = some a) (hb : y.rank? = some b) (h : Units.Representable (a - b).natAbs) :
    (x - y).rank? = some (a - b) := by
  cases x with
  | infinite | nan => cases hx
  | finite s u hu =>
    cases y with
    | infinite | nan => cases hy
    | finite t v hv =>
      cases ha
      cases hb
      rw [sub_eq_add, neg, add]
      simp only [signed_not, ← Int.sub_eq_add_neg]
      rw [ofUnits_of_representable h, rank?]
      generalize signed s u - signed t v = diff
      refine congrArg some ?_
      by_cases hzero : diff = 0
      · simp [hzero, signed]
      · rw [if_neg hzero]
        by_cases hnegative : diff < 0
        · simp only [signed, hnegative, decide_true, if_true]
          omega
        · simp only [signed, hnegative, decide_false, Bool.false_eq_true, if_false]
          omega

theorem zero_le_positivePart (x : Binary64) : 0 ≤ x.positivePart := by
  have hzero : rank? zero = some 0 := rfl
  rw [positivePart]
  split
  · next hpos =>
    cases hx : x.rank? with
    | none => cases x <;> simp_all [rank?]
    | some a =>
      rw [less_iff_rank hzero hx] at hpos
      rw [le_iff_rank rank_zero hx]
      omega
  · exact (le_iff_rank rank_zero hzero).2 (Int.le_refl 0)

/-! Whole numbers -/

-- A whole number is the number of its integer part, up to the sign of zero.
theorem same_ofInt_toInt (h : x.isWhole = true) : (ofInt x.toInt).same x = true := by
  cases x with
  | infinite | nan => cases h
  | finite s u hu =>
    have hdvd : Units.one ∣ u := Nat.dvd_of_mod_eq_zero (beq_iff_eq.1 h)
    have hunits : (signed s (u / Units.one)).natAbs * Units.one = u := by
      rw [natAbs_signed]
      exact Nat.div_mul_cancel hdvd
    rw [toInt, ofInt, hunits, ofUnits_of_representable hu, same_iff_rank rfl rfl]
    by_cases hzero : u = 0
    · subst hzero
      cases s <;> simp [signed]
    · have hpos : 0 < u / Units.one :=
        Nat.div_pos (Nat.le_of_dvd (Nat.pos_of_ne_zero hzero) hdvd) (Units.power_pos 1074)
      have hsign : decide (signed s (u / Units.one) < 0) = s := by
        cases s with
        | false => exact decide_eq_false (Int.not_lt.2 (Int.natCast_nonneg _))
        | true => exact decide_eq_true (Int.neg_neg_of_pos (Int.natCast_pos.2 hpos))
      rw [hsign]

theorem format_zero (negative : Bool) (h : Units.Representable 0) :
    (finite negative 0 h).format = "0" := by
  have hplain : ∀ s, (finite s 0 Units.representable_zero).format = "0" := by decide +kernel
  exact hplain negative

-- Numbers that are the same have the same form in messages, where zero shows no sign.
theorem format_congr (hy : y.isFinite = true) (h : x.same y = true) : x.format = y.format := by
  cases y with
  | infinite | nan => cases hy
  | finite t v hv =>
    cases x with
    | nan => simp [same, compare?, rank?] at h
    | infinite s =>
      have hlimit := hv.1
      have heq : (signed s Units.limit).natAbs = (signed t v).natAbs :=
        congrArg Int.natAbs ((same_iff_rank rfl rfl).1 h)
      rw [natAbs_signed, natAbs_signed] at heq
      omega
    | finite s u hu =>
      have hsigned : signed s u = signed t v := (same_iff_rank rfl rfl).1 h
      have heq : u = v := by
        have habs := congrArg Int.natAbs hsigned
        rwa [natAbs_signed, natAbs_signed] at habs
      subst heq
      by_cases hzero : u = 0
      · subst hzero
        rw [format_zero, format_zero]
      · have hsign : s = t := by
          cases s <;> cases t <;> simp only [signed] at hsigned <;> first | rfl | grind
        rw [hsign]

theorem same_self (hx : x.isFinite = true) : x.same x = true := by
  cases x with
  | finite s u hu => exact (same_iff_rank rfl rfl).2 rfl
  | infinite | nan => cases hx

end Binary64

end Tabletop
