namespace Tabletop

-- A source of die faces. The face of a roll may depend on how many rolls came before it and on the
-- number of faces of the die.
structure Dice where
  face : Nat → Nat → Nat
  rolled : Nat

namespace Dice

def highest : Dice := ⟨fun _ faces => faces, 0⟩

-- The given faces come one after the other, and `fallback` for ever after.
def scripted (faces : List Nat) (fallback : Nat) : Dice :=
  ⟨fun i _ => (faces[i]?).getD fallback, 0⟩

-- Faces scattered evenly by a fixed mixing of the seed and the number of the roll.
def seeded (seed : UInt64) : Dice :=
  ⟨fun i faces =>
    let a := seed + 0x9E3779B97F4A7C15 * (UInt64.ofNat i + 1)
    let b := (a ^^^ (a >>> 30)) * 0xBF58476D1CE4E5B9
    let c := (b ^^^ (b >>> 27)) * 0x94D049BB133111EB
    (c ^^^ (c >>> 31)).toNat % faces + 1, 0⟩

instance : Inhabited Dice := ⟨highest⟩

-- A face is never below 1 nor above the number of faces.
def clamp (faces face : Nat) : Nat := max 1 (min face (max 1 faces))

def roll (dice : Dice) (faces : Nat) : Nat × Dice :=
  (clamp faces (dice.face dice.rolled faces), { dice with rolled := dice.rolled + 1 })

def rollMany (dice : Dice) (faces : Nat) : Nat → List Nat × Dice
  | 0 => ([], dice)
  | n + 1 =>
    let (face, dice) := dice.roll faces
    let (more, dice) := dice.rollMany faces n
    (face :: more, dice)

end Dice

end Tabletop
