import Tabletop.Binary64.Basic

-- The decimal with the fewest digits that still reads back as a given magnitude. The grids of
-- the multiples of 10^k are tried from the coarsest on; on each only the two neighbours of the
-- magnitude matter, for if any point of the grid reads back then one of these does.
namespace Tabletop.Shortest

-- Which neighbour to take when both are equally near.
inductive Tie where
  | up
  | even
deriving DecidableEq

-- A decimal `digits * 10^exponent`.
structure Decimal where
  digits : Nat
  exponent : Int
deriving DecidableEq, Repr

-- The numbers that round to `units` reach down half of this distance.
def gapBelow (units : Nat) : Nat :=
  let gap := Units.gap units
  if 1 < gap ∧ units = Units.power units.log2 then gap / 2 else gap

-- The magnitude in steps of the grid is the quotient of these two.
def scaled (units : Nat) : Int → Nat × Nat
  | .ofNat e => (units, Units.one * Nat.pow 10 e)
  | .negSucc e => (units * Nat.pow 10 (e + 1), Units.one)

-- The stretch of one unit on the scale of the numerator of `scaled`.
def stretch : Int → Nat
  | .ofNat _ => 1
  | .negSucc e => Nat.pow 10 (e + 1)

-- The neighbour on the grid of 10^exponent that reads back, if there is one. The ends of the
-- interval round to the magnitude exactly when its significand is even.
def onGrid? (tie : Tie) (units : Nat) (exponent : Int) : Option Nat :=
  let (num, den) := scaled units exponent
  let unit := stretch exponent
  let below := num / den
  let rest := num % den
  let ends := (units / Units.gap units) % 2 == 0
  let reaches (distance gap : Nat) :=
    2 * distance < gap * unit || (ends && 2 * distance == gap * unit)
  let low := reaches rest (gapBelow units)
  let high := reaches (den - rest) (Units.gap units)
  if low && high then
    if 2 * rest < den then some below
    else if den < 2 * rest then some (below + 1)
    else match tie with
      | .up => some (below + 1)
      | .even => some (if below % 2 = 0 then below else below + 1)
  else if low then some below
  else if high then some (below + 1)
  else none

-- The exponent of a grid that is coarser than the magnitude itself. The quotient is a little
-- more than the decimal logarithm of two.
def coarse (units : Nat) : Int :=
  ((units.log2 : Int) - 1073) * 30103 / 100000 + 1

def descend (tie : Tie) (units : Nat) : Nat → Int → Decimal
  | 0, exponent => ⟨(scaled units exponent).1 / (scaled units exponent).2, exponent⟩
  | n + 1, exponent =>
    match onGrid? tie units exponent with
    | some digits => ⟨digits, exponent⟩
    | none => descend tie units n (exponent - 1)

-- Seventeen digits always suffice, and the first grid or two have none.
def decimal (tie : Tie) (units : Nat) : Decimal :=
  descend tie units 20 (coarse units)

end Tabletop.Shortest
