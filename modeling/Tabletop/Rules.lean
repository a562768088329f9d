import Tabletop.Text.Basic

namespace Tabletop

-- Who drives the activity, from the least trusted to the most.
inductive Role where
  | player
  | trusted
  | assistant
  | gameMaster
deriving DecidableEq, Inhabited

namespace Role

def all : List Role := [.player, .trusted, .assistant, .gameMaster]

def name : Role → String
  | .player => "player"
  | .trusted => "trusted"
  | .assistant => "assistant"
  | .gameMaster => "gameMaster"

def rank : Role → Nat
  | .player => 0
  | .trusted => 1
  | .assistant => 2
  | .gameMaster => 3

def order (a b : Role) : Ordering := compare a.rank b.rank

end Role

-- Who wins a test when both totals are equal.
inductive TieBreak where
  | actor
  | target
deriving DecidableEq, Inhabited

-- Where the system data of an entity holds what the rules speak of. The pools (points, stamina and
-- hit points) are objects with `value` and `max`; armor and speed are numbers.
structure AttributePaths where
  turnPoints : String := "actionPoints.turn"
  interruptPoints : String := "actionPoints.interrupt"
  stamina : String := "stamina"
  hp : String := "hp"
  armor : String := "armor"
  travelSpeed : String := "travel.speed"
deriving DecidableEq, Inhabited

structure Rules where
  -- Attacks need a target unless the user has at least the privileged role.
  targetRequired : Bool := true
  privilegedRole : Role := .gameMaster
  costsInCombatOnly : Bool := true
  enforceCosts : Bool := true
  paths : AttributePaths := {}
  -- The formula that checks and tests roll.
  checkDie : String := "1d20"
  -- The roll data path of a modifier, with a mark where the name of the check goes.
  checkModifier : String := "checks.\x7bcheck\x7d"
  testTiesFavor : TieBreak := .target
deriving DecidableEq, Inhabited

def Rules.modifierPath (rules : Rules) (check : String) : String :=
  Text.replace rules.checkModifier "\x7bcheck\x7d" check

-- An encounter: whose turn it is and which round.
structure Combat where
  activeCombatant : String
  round : Nat
deriving DecidableEq, Inhabited

end Tabletop
