import Tabletop.Proofs.Binary64.Rounding
import Tabletop.Proofs.Json.Text

-- Whatever is read from a text is finite: a number beyond all finite ones is refused, and there is
-- no form for infinities and NaN.
namespace Tabletop

/-! Numbers -/

namespace Units

theorem gap_le_succ (n : Nat) : gap n ≤ n + 1 := by
  by_cases hn : n = 0
  · subst hn
    decide
  · have hlog : power n.log2 ≤ n := Nat.log2_self_le hn
    have hgap : gap n ≤ power n.log2 := Nat.pow_le_pow_right (by decide) (Nat.sub_le _ _)
    omega

-- Rounding goes up by less than the gap.
theorem nearest_le (num den : Nat) : nearest num den ≤ 2 * (num / den) + 1 := by
  have hfloor : num / (den * gap (num / den)) * gap (num / den) ≤ num / den := by
    rw [← Nat.div_div_eq_div_mul]
    exact Nat.div_mul_le_self _ _
  have hgap := gap_le_succ (num / den)
  simp only [nearest]
  split
  · rw [Nat.add_mul, Nat.one_mul]
    omega
  · omega

end Units

namespace Binary64

theorem isFinite_ofUnits {negative : Bool} {num den : Nat} (h : 2 * (num / den) + 1 < Units.limit) :
    (ofUnits negative num den).isFinite = true := by
  have hfits : Units.nearest num den < Units.limit :=
    Nat.lt_of_le_of_lt (Units.nearest_le num den) h
  simp only [ofUnits, dif_pos hfits]
  rfl

-- Whole numbers that fit into 64 bits are far below the limit.
theorem isFinite_ofUnits_whole {negative : Bool} {n : Nat} (h : n ≤ Bits.greatest 64) :
    (ofUnits negative (n * Units.one) 1).isFinite = true := by
  have hlimit : 2 * (Bits.greatest 64 * Units.one) + 1 < Units.limit := by decide +kernel
  have hmul := Nat.mul_le_mul_right Units.one h
  refine isFinite_ofUnits ?_
  rw [Nat.div_one]
  omega

theorem isFinite_ofNat {n : Nat} (h : n ≤ Bits.greatest 64) : (ofNat n).isFinite = true := by
  rw [ofNat]
  exact isFinite_ofUnits_whole h

theorem isFinite_ofInt {n : Int} (h : n.natAbs ≤ Bits.greatest 64) :
    (ofInt n).isFinite = true := by
  rw [ofInt]
  exact isFinite_ofUnits_whole h

theorem le_of_le_signed {negative : Bool} {m n : Nat} (h : (m : Int) ≤ signed negative n) :
    m ≤ n := by
  cases negative with
  | false => exact Int.ofNat_le.1 h
  | true =>
    have hbelow : (m : Int) ≤ -n := h
    omega

-- What is divided by four or more gets smaller by more than rounding adds.
theorem isFinite_div {x y : Binary64} (hx : x.isFinite = true) (hy : 4 ≤ y) :
    (x / y).isFinite = true := by
  have hfour : rank? 4 = some ((4 * Units.one : Nat) : Int) := by decide +kernel
  have hlimit : 1 < Units.limit := by decide +kernel
  have hpos : 0 < Units.one := Units.power_pos 1074
  have hrank : ∀ r, rank? y = some r → (4 * Units.one : Nat) ≤ r := by
    intro r hr
    change (less 4 y || same 4 y) = true at hy
    simp only [less, same, compare?, hfour, hr] at hy
    grind
  have hdiv : x / y = div x y := rfl
  rw [hdiv]
  cases x with
  | finite s u hu =>
    have hsmall := hu.1
    cases y with
    | finite t v hv =>
      have hlarge : 4 * Units.one ≤ v := le_of_le_signed (hrank _ rfl)
      have hquotient : u * Units.one / v ≤ u / 4 := by
        rw [← Nat.mul_div_mul_right u 4 hpos]
        exact Nat.div_le_div_left hlarge (by omega)
      unfold div
      dsimp only
      rw [if_neg (by omega : v ≠ 0)]
      exact isFinite_ofUnits (by omega)
    | infinite t =>
      unfold div
      exact isFinite_ofUnits (by omega)
    | nan => exact absurd hy (by decide +kernel)
  | infinite | nan => cases hx

end Binary64

namespace Json

variable {negative : Bool} {x : Binary64}

theorem isFinite_scaleDecimal? {n : Nat} {exponent : Int} {y : Binary64} (hx : x.isFinite = true)
    (h : scaleDecimal? negative x n exponent = some y) : y.isFinite = true := by
  have hsign : ∀ {z : Binary64}, z.isFinite = true →
      (if negative then z.neg else z).isFinite = true := by
    intro z hz
    split
    · simpa using hz
    · exact hz
  induction n generalizing x exponent with
  | zero =>
    cases h
    exact hsign hx
  | succ n ih =>
    simp only [scaleDecimal?] at h
    split at h
    · obtain ⟨hfinite, rfl⟩ : _ ∧ _ = y := by
        simpa only [Option.ite_none_right_eq_some, Option.some.injEq] using h
      exact hsign hfinite
    · split at h
      · next hzero =>
        cases h
        exact hsign hx
      · split at h
        · cases h
        · refine ih (Binary64.isFinite_div hx ?_) h
          decide +kernel

theorem significand_le {seen : Nat} (h : seen ≤ Bits.greatest 64) (digits : List Char) :
    (significand seen digits).1 ≤ Bits.greatest 64 := by
  induction digits generalizing seen with
  | nil => exact h
  | cons c digits ih =>
    simp only [significand]
    split
    · next hnext => exact ih hnext
    · exact h

theorem isFinite_realValue? {whole fraction : List Char} {exponent : Int}
    (h : realValue? negative whole fraction exponent = some x) : x.isFinite = true := by
  have hkept := significand_le (significand_le (Nat.zero_le _) whole) fraction
  exact isFinite_scaleDecimal? (Binary64.isFinite_ofNat hkept) h

mutual

-- Whether all numbers within are finite, and those that are whole fit into 64 bits.
def Finite : Json → Prop
  | .int n => Whole64 n
  | .float x => x.isFinite = true
  | .arr items => FiniteItems items
  | .obj members => FiniteMembers members
  | _ => True

def FiniteItems : List Json → Prop
  | [] => True
  | item :: rest => item.Finite ∧ FiniteItems rest

def FiniteMembers : List (String × Json) → Prop
  | [] => True
  | (_, value) :: rest => value.Finite ∧ FiniteMembers rest

end

variable {j : Json} {s left : List Char}

-- Whether a value is a finite number, and fits into 64 bits if it is a whole one.
def FiniteNumber : Json → Prop
  | .int n => Whole64 n
  | .float x => x.isFinite = true
  | _ => False

theorem FiniteNumber.finite (h : j.FiniteNumber) : j.Finite := by
  cases j with
  | int | float => exact h
  | null | bool | str | arr | obj => cases h

theorem finiteNumber_numberOf? {whole : List Char} {fraction : Option (List Char)}
    {exponent : Option (Bool × Nat)} (h : numberOf? negative whole fraction exponent = some j) :
    j.FiniteNumber := by
  have hreal : ∀ {digits places : List Char} {power : Int},
      (realValue? negative digits places power).map float = some j → j.FiniteNumber := by
    intro digits places power hvalue
    obtain ⟨x, hx, rfl⟩ := Option.map_eq_some_iff.1 hvalue
    exact isFinite_realValue? hx
  unfold numberOf? at h
  split at h
  · dsimp only at h
    split at h
    · exact hreal h
    · next hfits =>
      split at h
      · cases h
        exact ⟨Int.le_trans (by decide) (Int.natCast_nonneg _), by omega⟩
      · split at h
        · cases h
          exact (Binary64.isFinite_neg _).trans (Binary64.isFinite_ofNat (by omega))
        · next hleast =>
          cases h
          have hle : ¬ Nat.pow 2 63 < Text.ofDigits whole := by
            intro hlt
            rw [decide_eq_true hlt, Bool.or_true] at hleast
            exact hleast rfl
          exact ⟨by omega, by omega⟩
  · exact hreal h
  · dsimp only at h
    split at h
    · split at h
      · cases h
        have hzero : Binary64.zero.isFinite = true := rfl
        split
        · exact (Binary64.isFinite_neg _).trans hzero
        · exact Binary64.isFinite_ofNat (Nat.zero_le _)
      · cases h
    · exact hreal h

theorem finiteNumber_unsigned? (h : unsigned? negative s = some (j, left)) : j.FiniteNumber := by
  simp only [unsigned?] at h
  split at h
  · cases h
  · simp only [bind, Option.bind_eq_some_iff, Prod.exists] at h
    obtain ⟨fraction, _, -, exponent, _, -, number, hnumber, hpure⟩ := h
    cases hpure
    exact finiteNumber_numberOf? hnumber

theorem finiteNumber_number? (h : number? s = some (j, left)) : j.FiniteNumber := by
  unfold number? at h
  split at h
  · exact finiteNumber_unsigned? h
  · exact finiteNumber_unsigned? h

/-! Whole texts -/

-- What a value of each kind is read from.
theorem value?_cases {n d : Nat} (h : value? (n + 1) d s = some (j, left)) :
    match j with
    | .null | .bool _ => True
    | .int _ | .float _ => number? (skipSpace s) = some (j, left)
    | .str t => ∃ rest, skipSpace s = '"' :: rest ∧ stringBody? rest.length [] rest = some (t, left)
    | .arr items => items = [] ∨ ∃ rest, items? n (d - 1) rest = some (items, left)
    | .obj members => members = [] ∨ ∃ rest, members? n (d - 1) rest = some (members, left) := by
  simp only [value?] at h
  split at h
  · cases h
    trivial
  · cases h
    trivial
  · cases h
    trivial
  · next rest hs =>
    obtain ⟨⟨t, after⟩, hbody, heq⟩ := Option.map_eq_some_iff.1 h
    cases heq
    exact ⟨rest, hs, hbody⟩
  · split at h
    · cases h
    · split at h
      · cases h
        exact .inl rfl
      · obtain ⟨⟨items, after⟩, hitems, heq⟩ := Option.map_eq_some_iff.1 h
        cases heq
        exact .inr ⟨_, hitems⟩
  · split at h
    · cases h
    · split at h
      · cases h
        exact .inl rfl
      · obtain ⟨⟨members, after⟩, hmembers, heq⟩ := Option.map_eq_some_iff.1 h
        cases heq
        exact .inr ⟨_, hmembers⟩
  · have hnumber := finiteNumber_number? h
    cases j with
    | int | float => exact h
    | null | bool | str | arr | obj => cases hnumber

-- What is read in so many steps.
structure Yields (n : Nat) : Prop where
  value : ∀ {d : Nat} {s left : List Char} {j : Json}, value? n d s = some (j, left) → j.Finite
  items : ∀ {d : Nat} {s left : List Char} {items : List Json},
    items? n d s = some (items, left) → FiniteItems items
  members : ∀ {d : Nat} {s left : List Char} {members : List (String × Json)},
    members? n d s = some (members, left) → FiniteMembers members

namespace Yields

variable {n d : Nat}

theorem value_succ (h : Yields n) (hvalue : value? (n + 1) d s = some (j, left)) : j.Finite := by
  have hcases := value?_cases hvalue
  cases j with
  | null | bool | str => trivial
  | int | float => exact (finiteNumber_number? hcases).finite
  | arr items =>
    obtain rfl | ⟨rest, hitems⟩ := hcases
    · trivial
    · exact h.items hitems
  | obj members =>
    obtain rfl | ⟨rest, hmembers⟩ := hcases
    · trivial
    · exact h.members hmembers

theorem items_succ (h : Yields n) {items : List Json}
    (hitems : items? (n + 1) d s = some (items, left)) : FiniteItems items := by
  simp only [items?, bind, Option.bind_eq_some_iff, Prod.exists] at hitems
  obtain ⟨item, rest, hitem, hmore⟩ := hitems
  split at hmore
  · simp only [Option.bind_eq_some_iff, Prod.exists] at hmore
    obtain ⟨others, rest, hothers, hpure⟩ := hmore
    cases hpure
    exact ⟨h.value hitem, h.items hothers⟩
  · cases hmore
    exact ⟨h.value hitem, trivial⟩
  · cases hmore

theorem members_succ (h : Yields n) {members : List (String × Json)}
    (hmembers : members? (n + 1) d s = some (members, left)) : FiniteMembers members := by
  simp only [members?] at hmembers
  split at hmembers
  · simp only [bind, Option.bind_eq_some_iff, Prod.exists] at hmembers
    obtain ⟨key, rest, -, hvalue⟩ := hmembers
    split at hvalue
    · simp only [Option.bind_eq_some_iff, Prod.exists] at hvalue
      obtain ⟨value, rest, hvalue, hmore⟩ := hvalue
      split at hmore
      · simp only [Option.bind_eq_some_iff, Prod.exists] at hmore
        obtain ⟨others, rest, hothers, hpure⟩ := hmore
        cases hpure
        exact ⟨h.value hvalue, h.members hothers⟩
      · cases hmore
        exact ⟨h.value hvalue, trivial⟩
      · cases hmore
    · cases hvalue
  · cases hmembers

end Yields

theorem yields (n : Nat) : Yields n := by
  induction n with
  | zero =>
    constructor
    · intro d s left j h
      simp [value?] at h
    · intro d s left items h
      simp [items?] at h
    · intro d s left members h
      simp [members?] at h
  | succ n ih => exact ⟨ih.value_succ, ih.items_succ, ih.members_succ⟩

theorem finite_read? {text : String} (h : read? text = some j) : j.Finite := by
  simp only [read?, bind, Option.bind_eq_some_iff, Prod.exists] at h
  obtain ⟨value, rest, hvalue, hrest⟩ := h
  split at hrest
  · cases hrest
    exact (yields _).value hvalue
  · cases hrest

end Json

end Tabletop
