import Tabletop.Proofs.Binary64.Rounding

-- How arithmetic goes with the order. A sum is rounded, though not past any number, so that what is
-- added does not lower a number and what is taken away does not raise it.
namespace Tabletop

namespace Units

theorem le_div_mul_of_dvd {g k m : Nat} (hdvd : g ∣ k) (h : k ≤ m) :
    k ≤ m / g * g := by
  have hquotient : k / g ≤ m / g := Nat.div_le_div_right h
  calc k = k / g * g := (Nat.div_mul_cancel hdvd).symm
    _ ≤ m / g * g := Nat.mul_le_mul_right g hquotient

-- The power of two at the head of a magnitude is a multiple of its gap, and so is every number that
-- has a head as high.
theorem le_nearest_of_gap_dvd {m n : Nat} (hn : gap n ∣ n) (h : n ≤ m) : n ≤ nearest m 1 := by
  by_cases hzero : n = 0
  · subst hzero
    exact Nat.zero_le _
  have hm : m ≠ 0 := by omega
  have hlog : n.log2 ≤ m.log2 := (Nat.le_log2 hm).2 (Nat.le_trans (Nat.log2_self_le hzero) h)
  have hwhole : n ≤ m / gap m * gap m := by
    obtain hlower | hsame := Nat.lt_or_eq_of_le hlog
    · have hhead : power m.log2 ≤ m / gap m * gap m :=
        le_div_mul_of_dvd (power_dvd_power (by omega)) (Nat.log2_self_le hm)
      exact Nat.le_trans (Nat.le_of_lt ((log2_lt_iff hzero).1 hlower)) hhead
    · have hgap : gap m = gap n := by rw [gap, gap, hsame]
      exact le_div_mul_of_dvd (hgap ▸ hn) h
  have hup : m / gap m * gap m ≤ (m / gap m + 1) * gap m := Nat.mul_le_mul_right _ (Nat.le_succ _)
  simp only [nearest, Nat.div_one, Nat.one_mul]
  split
  · exact Nat.le_trans hwhole hup
  · exact hwhole

end Units

namespace Binary64

variable {x y z : Binary64} {a b c : Int}

theorem isFinite_zero : isFinite 0 = true := by decide +kernel

theorem isFinite_one : isFinite 1 = true := by decide +kernel

theorem zero_le_one : (0 : Binary64) ≤ 1 := by decide +kernel

theorem exists_rank (hx : x.isFinite = true) : ∃ a, x.rank? = some a := by
  cases x with
  | finite => exact ⟨_, rfl⟩
  | infinite | nan => cases hx

theorem isNaN_iff : x.isNaN = true ↔ x = nan := by
  cases x <;> simp [isNaN]

theorem ne_nan_of_isFinite (hx : x.isFinite = true) : x ≠ nan := by
  rintro rfl
  cases hx

theorem ne_nan_of_le (h : x ≤ y) : x ≠ nan ∧ y ≠ nan := by
  constructor <;> rintro rfl <;> simp at h

theorem le_self (hx : x ≠ nan) : x ≤ x := by
  cases x with
  | nan => exact absurd rfl hx
  | finite | infinite => exact (le_iff_rank rfl rfl).2 (Int.le_refl _)

theorem isFinite_of_rank (hx : x.rank? = some a) (ha : a.natAbs < Units.limit) :
    x.isFinite = true := by
  cases x with
  | finite => rfl
  | nan => cases hx
  | infinite s =>
    cases hx
    rw [natAbs_signed] at ha
    exact absurd ha (Nat.lt_irrefl _)

theorem le_or_lt (hx : x.isFinite = true) (hy : y.isFinite = true) : x ≤ y ∨ y < x := by
  by_cases h : y < x
  · exact .inr h
  · exact .inl (le_of_not_lt (ne_nan_of_isFinite hy) (ne_nan_of_isFinite hx) h)

theorem lt_of_le_of_lt (h : x ≤ y) (h' : y < z) : x < z := by
  cases hx : x.rank? with
  | none => cases x <;> simp_all [rank?]
  | some a =>
    cases hy : y.rank? with
    | none => cases y <;> simp_all [rank?]
    | some b =>
      cases hz : z.rank? with
      | none => cases z <;> simp_all [rank?]
      | some c =>
        rw [le_iff_rank hx hy] at h
        rw [less_iff_rank hy hz] at h'
        rw [less_iff_rank hx hz]
        omega

theorem same_of_le_of_le (h : x ≤ y) (h' : y ≤ x) : x.same y = true := by
  cases hx : x.rank? with
  | none => cases x <;> simp_all [rank?]
  | some a =>
    cases hy : y.rank? with
    | none => cases y <;> simp_all [rank?]
    | some b =>
      rw [le_iff_rank hx hy] at h
      rw [le_iff_rank hy hx] at h'
      exact (same_iff_rank hx hy).2 (Int.le_antisymm h h')

-- A number between two finite ones is finite.
theorem isFinite_of_le_of_le (hx : x.isFinite = true) (hz : z.isFinite = true) (h : x ≤ y)
    (h' : y ≤ z) : y.isFinite = true := by
  cases x with
  | infinite | nan => cases hx
  | finite s u hu =>
    cases z with
    | infinite | nan => cases hz
    | finite t v hv =>
      cases y with
      | finite => rfl
      | nan => simp at h
      | infinite r =>
        have hu' := hu.1
        have hv' := hv.1
        rw [le_iff_rank rfl rfl] at h h'
        cases r <;> cases s <;> cases t <;> simp only [signed] at h h' <;> grind

/-! Sums -/

theorem add_eq_add (x y : Binary64) : x + y = add x y := rfl

-- A magnitude that is rounded up or down to a number, or to an infinity, passes no number.
theorem rank_ofUnits_bounds (negative : Bool) (m : Nat) :
    ∃ k, (ofUnits negative m 1).rank? = some (signed negative k) ∧ (m = 0 → k = 0) ∧
      ∀ n, Units.Representable n → (n ≤ m → n ≤ k) ∧ (m ≤ n → k ≤ n) := by
  have hlow : ∀ n, Units.Representable n → n ≤ m → n ≤ Units.nearest m 1 := fun n hn =>
    Units.le_nearest_of_gap_dvd hn.2
  have hhigh : ∀ n, Units.Representable n → m ≤ n → Units.nearest m 1 ≤ n := fun n hn =>
    Units.nearest_le_of_gap_dvd hn.2
  simp only [ofUnits]
  split
  · next hfits =>
    refine ⟨Units.nearest m 1, rfl, fun hm => ?_, fun n hn => ⟨hlow n hn, hhigh n hn⟩⟩
    have hnone := hhigh 0 Units.representable_zero
    omega
  · next hbeyond =>
    refine ⟨Units.limit, rfl, fun hm => ?_, fun n hn => ⟨fun _ => Nat.le_of_lt hn.1, fun hle => ?_⟩⟩
    · have hnone := hhigh 0 Units.representable_zero
      have hlimit := Units.limit_pos
      omega
    · have hnearest := hhigh n hn hle
      have hlimit := hn.1
      omega

-- The rounded sum is on the same side of every number as the exact one.
theorem exists_rank_add (hx : x.isFinite = true) (hy : y.isFinite = true) (ha : x.rank? = some a)
    (hb : y.rank? = some b) :
    ∃ r, (x + y).rank? = some r ∧ ∀ z : Binary64, z.isFinite = true → ∀ c, z.rank? = some c →
      (c ≤ a + b → c ≤ r) ∧ (a + b ≤ c → r ≤ c) := by
  cases x with
  | infinite | nan => cases hx
  | finite s u hu =>
    cases y with
    | infinite | nan => cases hy
    | finite t v hv =>
      cases ha
      cases hb
      rw [add_eq_add, add]
      generalize signed s u + signed t v = sum
      generalize hsign : (if sum = 0 then s && t else decide (sum < 0)) = negative
      obtain ⟨k, hk, hnone, hbounds⟩ := rank_ofUnits_bounds negative sum.natAbs
      refine ⟨_, hk, fun z hz c hc => ?_⟩
      cases z with
      | infinite | nan => cases hz
      | finite r w hw =>
        cases hc
        obtain ⟨hlow, hhigh⟩ := hbounds w hw
        by_cases hsum : sum = 0
        · have hk0 : k = 0 := hnone (by simp [hsum])
          subst hk0 hsum
          cases negative <;> simp [signed]
        · rw [if_neg hsum] at hsign
          subst hsign
          by_cases hbelow : sum < 0
          · cases r <;> simp only [signed, hbelow, decide_true, if_true, Bool.false_eq_true, if_false] <;>
              omega
          · cases r <;> simp only [signed, hbelow, decide_false, if_true, Bool.false_eq_true, if_false] <;>
              omega

-- A sum that is a number is not rounded.
theorem rank_add (hx : x.isFinite = true) (hy : y.isFinite = true) (ha : x.rank? = some a)
    (hb : y.rank? = some b) (h : Units.Representable (a + b).natAbs) :
    (x + y).rank? = some (a + b) := by
  obtain ⟨r, hr, hbounds⟩ := exists_rank_add hx hy ha hb
  have hsum : signed (decide (a + b < 0)) (a + b).natAbs = a + b := by
    by_cases hbelow : a + b < 0 <;> simp only [signed, hbelow, decide_true, decide_false, if_true,
      Bool.false_eq_true, if_false] <;> omega
  have hexact := hbounds (.finite (decide (a + b < 0)) _ h) rfl (a + b) (congrArg some hsum)
  rw [hr, Int.le_antisymm (hexact.2 (Int.le_refl _)) (hexact.1 (Int.le_refl _))]

theorem sub_eq_add_neg (x y : Binary64) : x - y = x + -y := rfl

theorem rank_neg (hy : y.rank? = some b) : (-y).rank? = some (-b) := by
  cases y with
  | nan => cases hy
  | finite s | infinite s =>
    cases hy
    exact congrArg some (signed_not s _)

theorem eq_infinite_of_nonneg (hy : 0 ≤ y) (h : y.isFinite = false) : y = .infinite false := by
  cases y with
  | finite => cases h
  | nan => simp at hy
  | infinite s =>
    cases s with
    | false => rfl
    | true => exact absurd hy (by decide +kernel)

theorem le_infinite (hx : x.isFinite = true) : x ≤ .infinite false := by
  cases x with
  | infinite | nan => cases hx
  | finite s u hu =>
    have hlimit := hu.1
    have hmost := signed_le s u
    rw [le_iff_rank rfl rfl]
    change signed s u ≤ (Units.limit : Int)
    omega

theorem infinite_le (hx : x.isFinite = true) : .infinite true ≤ x := by
  cases x with
  | infinite | nan => cases hx
  | finite s u hu =>
    have hlimit := hu.1
    rw [le_iff_rank rfl rfl]
    cases s <;> simp only [signed] <;> grind

theorem add_infinite (hx : x.isFinite = true) (s : Bool) : x + infinite s = infinite s := by
  cases x with
  | finite => rfl
  | infinite | nan => cases hx

-- What is added does not lower a number, even by rounding.
theorem le_add (hx : x.isFinite = true) (hy : 0 ≤ y) : x ≤ x + y := by
  obtain ⟨a, ha⟩ := exists_rank hx
  cases hfinite : y.isFinite with
  | false =>
    obtain rfl := eq_infinite_of_nonneg hy hfinite
    rw [add_infinite hx]
    exact le_infinite hx
  | true =>
    obtain ⟨b, hb⟩ := exists_rank hfinite
    obtain ⟨r, hr, hbounds⟩ := exists_rank_add hx hfinite ha hb
    rw [le_iff_rank rank_zero hb] at hy
    rw [le_iff_rank ha hr]
    exact (hbounds x hx a ha).1 (by omega)

-- What is taken away does not raise one.
theorem sub_le (hx : x.isFinite = true) (hy : 0 ≤ y) : x - y ≤ x := by
  obtain ⟨a, ha⟩ := exists_rank hx
  rw [sub_eq_add_neg]
  cases hfinite : y.isFinite with
  | false =>
    obtain rfl := eq_infinite_of_nonneg hy hfinite
    rw [show -(infinite false) = infinite true from rfl, add_infinite hx]
    exact infinite_le hx
  | true =>
    obtain ⟨b, hb⟩ := exists_rank hfinite
    have hneg : (-y).isFinite = true := (isFinite_neg y).trans hfinite
    obtain ⟨r, hr, hbounds⟩ := exists_rank_add hx hneg ha (rank_neg hb)
    rw [le_iff_rank rank_zero hb] at hy
    rw [le_iff_rank hr ha]
    exact (hbounds x hx a ha).2 (by omega)

/-! The smaller and the greater of two numbers -/

theorem not_lt_self (x : Binary64) : ¬ x < x := by
  cases hx : x.rank? with
  | none => cases x <;> simp_all [rank?]
  | some a => simp [less_iff_rank hx hx]

theorem min_eq_or (x y : Binary64) : x.min y = x ∨ x.min y = y := by
  unfold Binary64.min
  split
  · exact .inr rfl
  split
  · exact .inl rfl
  split
  · exact .inr rfl
  · exact .inl rfl

theorem max_eq_or (x y : Binary64) : x.max y = x ∨ x.max y = y := by
  unfold Binary64.max
  split
  · exact .inr rfl
  split
  · exact .inl rfl
  split
  · exact .inr rfl
  · exact .inl rfl

theorem le_min (h : z ≤ x) (h' : z ≤ y) : z ≤ x.min y := by
  obtain hmin | hmin := min_eq_or x y
  · rwa [hmin]
  · rwa [hmin]

theorem max_le (h : x ≤ z) (h' : y ≤ z) : x.max y ≤ z := by
  obtain hmax | hmax := max_eq_or x y
  · rwa [hmax]
  · rwa [hmax]

theorem min_le_right (x : Binary64) (hy : y ≠ nan) : x.min y ≤ y := by
  unfold Binary64.min
  split
  · exact le_self hy
  · next hx =>
    rw [if_neg (mt isNaN_iff.1 hy)]
    split
    · exact le_self hy
    · next hlt => exact le_of_not_lt hy (mt isNaN_iff.2 hx) hlt

theorem min_le_left (hx : x ≠ nan) (y : Binary64) : x.min y ≤ x := by
  unfold Binary64.min
  rw [if_neg (mt isNaN_iff.1 hx)]
  split
  · exact le_self hx
  · split
    · next hlt => exact le_of_lt hlt
    · exact le_self hx

theorem le_max_right (x : Binary64) (hy : y ≠ nan) : y ≤ x.max y := by
  unfold Binary64.max
  split
  · exact le_self hy
  · next hx =>
    rw [if_neg (mt isNaN_iff.1 hy)]
    split
    · exact le_self hy
    · next hlt => exact le_of_not_lt (mt isNaN_iff.2 hx) hy hlt

theorem max_eq_right (h : x < y) : x.max y = y := by
  have hy : ¬ y.isNaN = true := by
    intro hnan
    rw [isNaN_iff.1 hnan] at h
    exact not_lt_nan h
  rw [Binary64.max, if_neg hy, if_pos h, ite_self]

theorem not_lt_min_right (x y : Binary64) : ¬ y < x.min y := by
  unfold Binary64.min
  split
  · exact not_lt_self y
  split
  · next hy =>
    cases y with
    | nan => exact not_nan_lt
    | finite | infinite => cases hy
  split
  · exact not_lt_self y
  · next hlt => exact hlt

theorem not_lt_min_left (hx : x.isFinite = true) : ¬ x < x.min y := by
  obtain ⟨a, ha⟩ := exists_rank hx
  unfold Binary64.min
  split
  · next hnan => cases x <;> simp_all [isFinite, isNaN]
  split
  · exact not_lt_self x
  split
  · next hlt =>
    cases hy : y.rank? with
    | none => cases y <;> simp_all [rank?]
    | some b =>
      rw [less_iff_rank hy ha] at hlt
      rw [less_iff_rank ha hy]
      omega
  · exact not_lt_self x

-- Among finite numbers, what is not above a number is below all that it is below.
theorem lt_of_not_lt_of_lt (hx : x.isFinite = true) (hy : y.isFinite = true)
    (hz : z.isFinite = true) (h : ¬ y < x) (h' : y < z) : x < z := by
  obtain ⟨a, ha⟩ := exists_rank hx
  obtain ⟨b, hb⟩ := exists_rank hy
  obtain ⟨c, hc⟩ := exists_rank hz
  rw [less_iff_rank hb ha] at h
  rw [less_iff_rank hb hc] at h'
  rw [less_iff_rank ha hc]
  omega

end Binary64

end Tabletop
