namespace Tabletop

-- All finite binary64 numbers are whole multiples of the least positive one, 2^-1074. A magnitude
-- is counted in these units, so that order and exact arithmetic are those of the integers.
namespace Units

def power (n : Nat) : Nat := Nat.pow 2 n

-- The number 1.
def one : Nat := power 1074

-- Every finite magnitude is below 2^1024.
def limit : Nat := power 2098

-- The distance from a magnitude to its next neighbour upwards. It keeps 53 significant bits.
def gap (n : Nat) : Nat := power (n.log2 - 52)

def Representable (n : Nat) : Prop := n < limit ∧ gap n ∣ n

instance (n : Nat) : Decidable (Representable n) := inferInstanceAs (Decidable (_ ∧ _))

-- The multiple of the local gap that is nearest to `num / den`; a tie goes to the even multiple.
def nearest (num den : Nat) : Nat :=
  let step := gap (num / den)
  let whole := num / (den * step)
  let rest := num % (den * step)
  if den * step < 2 * rest ∨ (2 * rest = den * step ∧ whole % 2 = 1) then (whole + 1) * step
  else whole * step

theorem power_pos (n : Nat) : 0 < power n := Nat.two_pow_pos n

theorem power_add (m n : Nat) : power (m + n) = power m * power n := Nat.pow_add 2 m n

theorem power_dvd_power {m n : Nat} (h : m ≤ n) : power m ∣ power n := Nat.pow_dvd_pow 2 h

theorem log2_power (n : Nat) : (power n).log2 = n := Nat.log2_two_pow

theorem log2_lt_iff {n k : Nat} (h : n ≠ 0) : n.log2 < k ↔ n < power k := Nat.log2_lt h

theorem gap_pos (n : Nat) : 0 < gap n := power_pos _

theorem gap_dvd_of_log2 {k e : Nat} (h : k < power 53) : gap (k * power e) ∣ k * power e := by
  by_cases hk : k = 0
  · simp [hk]
  have hne : k * power e ≠ 0 :=
    Nat.ne_of_gt (Nat.mul_pos (Nat.pos_of_ne_zero hk) (power_pos e))
  have hlog : (k * power e).log2 < 53 + e := by
    rw [log2_lt_iff hne, power_add]
    exact Nat.mul_lt_mul_of_pos_right h (power_pos e)
  have hle : (k * power e).log2 - 52 ≤ e := by omega
  exact Nat.dvd_trans (power_dvd_power hle) (Nat.dvd_mul_left _ _)

-- The quotient by the gap has at most 53 bits.
theorem div_gap_lt (n : Nat) : n / gap n < power 53 := by
  rw [Nat.div_lt_iff_lt_mul (gap_pos n), gap, ← power_add]
  by_cases hn : n = 0
  · subst hn; exact power_pos _
  · exact (log2_lt_iff hn).mp (by omega)

theorem limit_pos : 0 < limit := power_pos 2098

theorem representable_zero : Representable 0 := ⟨limit_pos, Nat.dvd_zero _⟩

-- Rounding gives a number of 53 bits times a power of two.
theorem gap_dvd_nearest (num den : Nat) : gap (nearest num den) ∣ nearest num den := by
  have hwhole : num / (den * gap (num / den)) < power 53 := by
    rw [← Nat.div_div_eq_div_mul]
    exact div_gap_lt _
  simp only [nearest]
  generalize num / (den * gap (num / den)) = whole at hwhole ⊢
  split
  · by_cases hfull : whole + 1 = power 53
    · rw [hfull]
      simp only [gap, ← power_add, log2_power]
      exact power_dvd_power (by omega)
    · exact gap_dvd_of_log2 (Nat.lt_of_le_of_ne hwhole hfull)
  · exact gap_dvd_of_log2 hwhole

end Units

-- The numbers of IEEE 754 binary64, with one NaN.
inductive Binary64 where
  | finite (negative : Bool) (units : Nat) (fits : Units.Representable units)
  | infinite (negative : Bool)
  | nan
deriving DecidableEq

namespace Binary64

-- The number nearest to `± num / den` units. Magnitudes of 2^1024 and more become infinite.
def ofUnits (negative : Bool) (num den : Nat) : Binary64 :=
  let units := Units.nearest num den
  if h : units < Units.limit then .finite negative units ⟨h, Units.gap_dvd_nearest num den⟩
  else .infinite negative

def zero : Binary64 := .finite false 0 Units.representable_zero

instance : Inhabited Binary64 := ⟨zero⟩

def ofNat (n : Nat) : Binary64 := ofUnits false (n * Units.one) 1

def ofInt (n : Int) : Binary64 := ofUnits (n < 0) (n.natAbs * Units.one) 1

def one : Binary64 := ofNat 1

instance (n : Nat) : OfNat Binary64 n := ⟨ofNat n⟩

-- The number nearest to `mantissa * 10^exponent`. The early answers hold because every nonzero
-- finite number has a leading digit between 10^-324 and 10^308.
def ofDecimal (negative : Bool) (mantissa : Nat) (exponent : Int) : Binary64 :=
  let size : Int := mantissa.log2 / 3 + exponent
  if mantissa = 0 then ofUnits negative 0 1
  else if exponent > 400 then .infinite negative
  else if size < -800 then ofUnits negative 0 1
  else match exponent with
    | .ofNat e => ofUnits negative (mantissa * Nat.pow 10 e * Units.one) 1
    | .negSucc e => ofUnits negative (mantissa * Units.one) (Nat.pow 10 (e + 1))

def isFinite : Binary64 → Bool
  | .finite .. => true
  | _ => false

def isNaN : Binary64 → Bool
  | .nan => true
  | _ => false

def isNegative : Binary64 → Bool
  | .finite s _ _ => s
  | .infinite s => s
  | .nan => false

def signed (negative : Bool) (n : Nat) : Int := if negative then -n else n

-- The place of a number in the order. Infinity stands just beyond the largest finite magnitude.
def rank? : Binary64 → Option Int
  | .finite s u _ => some (signed s u)
  | .infinite s => some (signed s Units.limit)
  | .nan => none

-- NaN compares with nothing; the two zeros are equal.
def compare? (x y : Binary64) : Option Ordering :=
  match x.rank?, y.rank? with
  | some a, some b => some (compare a b)
  | _, _ => none

def same (x y : Binary64) : Bool := compare? x y == some .eq
def less (x y : Binary64) : Bool := compare? x y == some .lt
def atMost (x y : Binary64) : Bool := less x y || same x y

instance : LT Binary64 := ⟨fun x y => less x y = true⟩
instance : LE Binary64 := ⟨fun x y => atMost x y = true⟩
instance (x y : Binary64) : Decidable (x < y) := inferInstanceAs (Decidable (less x y = true))
instance (x y : Binary64) : Decidable (x ≤ y) := inferInstanceAs (Decidable (atMost x y = true))

def neg : Binary64 → Binary64
  | .finite s u h => .finite (!s) u h
  | .infinite s => .infinite (!s)
  | .nan => .nan

def abs : Binary64 → Binary64
  | .finite _ u h => .finite false u h
  | .infinite _ => .infinite false
  | .nan => .nan

-- An exact sum of zero is negative only if both terms are.
def add : Binary64 → Binary64 → Binary64
  | .finite s u _, .finite t v _ =>
    let sum := signed s u + signed t v
    ofUnits (if sum = 0 then s && t else sum < 0) sum.natAbs 1
  | .nan, _ => .nan
  | _, .nan => .nan
  | .infinite s, .infinite t => if s = t then .infinite s else .nan
  | .infinite s, _ => .infinite s
  | _, .infinite t => .infinite t

def sub (x y : Binary64) : Binary64 := add x y.neg

def mul : Binary64 → Binary64 → Binary64
  | .finite s u _, .finite t v _ => ofUnits (s != t) (u * v) Units.one
  | .nan, _ => .nan
  | _, .nan => .nan
  | x, y =>
    if x.same zero || y.same zero then .nan else .infinite (x.isNegative != y.isNegative)

def div : Binary64 → Binary64 → Binary64
  | .finite s u _, .finite t v _ =>
    if v = 0 then (if u = 0 then .nan else .infinite (s != t))
    else ofUnits (s != t) (u * Units.one) v
  | .nan, _ => .nan
  | _, .nan => .nan
  | .infinite _, .infinite _ => .nan
  | .infinite s, y => .infinite (s != y.isNegative)
  | x, .infinite t => ofUnits (x.isNegative != t) 0 1

-- The remainder of the division whose quotient is rounded toward zero; it is exact and has the
-- sign of the dividend.
def rem : Binary64 → Binary64 → Binary64
  | .finite s u h, .finite _ v _ =>
    if v = 0 then .nan else if u < v then .finite s u h else ofUnits s (u % v) 1
  | .finite s u h, .infinite _ => .finite s u h
  | _, _ => .nan

instance : Add Binary64 := ⟨add⟩
instance : Sub Binary64 := ⟨sub⟩
instance : Mul Binary64 := ⟨mul⟩
instance : Div Binary64 := ⟨div⟩
instance : Mod Binary64 := ⟨rem⟩
instance : Neg Binary64 := ⟨neg⟩

-- NaN gives way to the other operand.
def min (x y : Binary64) : Binary64 :=
  if x.isNaN then y else if y.isNaN then x else if y < x then y else x

def max (x y : Binary64) : Binary64 :=
  if x.isNaN then y else if y.isNaN then x else if x < y then y else x

-- Anything that is not above zero counts as zero.
def positivePart (x : Binary64) : Binary64 := if zero < x then x else zero

-- Applies a rounding of magnitudes to whole numbers; `up` tells when to leave the floor.
def roundWhole (up : Bool → Nat → Bool) : Binary64 → Binary64
  | .finite s u _ =>
    let whole := u / Units.one
    let rest := u % Units.one
    ofUnits s ((if up s rest then whole + 1 else whole) * Units.one) 1
  | x => x

def floor : Binary64 → Binary64 := roundWhole fun negative rest => negative && rest != 0

def ceil : Binary64 → Binary64 := roundWhole fun negative rest => !negative && rest != 0

-- A half goes away from zero.
def round : Binary64 → Binary64 := roundWhole fun _ rest => Units.one ≤ 2 * rest

def isWhole : Binary64 → Bool
  | .finite _ u _ => u % Units.one == 0
  | _ => false

-- The integer part, toward zero.
def toInt : Binary64 → Int
  | .finite s u _ => signed s (u / Units.one)
  | _ => 0

end Binary64

end Tabletop
