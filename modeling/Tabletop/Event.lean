import Tabletop.Failure
import Tabletop.Json.Basic

namespace Tabletop

inductive StepStatus where
  | success
  | skipped
  | halted
  | forked
  | suspended
deriving DecidableEq, Inhabited

def StepStatus.name : StepStatus → String
  | .success => "success"
  | .skipped => "skipped"
  | .halted => "halted"
  | .forked => "forked"
  | .suspended => "suspended"

inductive Level where
  | info
  | warning
  | error
deriving DecidableEq, Inhabited

def Level.name : Level → String
  | .info => "info"
  | .warning => "warning"
  | .error => "error"

-- The damage of one entry against one target; there is no target when a privileged user attacks
-- the air.
structure DamageDealt where
  target : Option String
  damageType : String
  amount : Binary64
  penetrate : Bool
  nonLethal : Bool
deriving DecidableEq

def DamageDealt.toJson (d : DamageDealt) : Json := .record [
  ("target", .ofOption .str d.target),
  ("damageType", .str d.damageType),
  ("amount", .ofReal d.amount),
  ("penetrate", .bool d.penetrate),
  ("nonLethal", .bool d.nonLethal)]

-- What a host hears of a walk.
inductive Event where
  | runStarted (activity : String) (operationCount : Nat)
  | runFinished (activity : String) (halted : Bool)
  | operationStarted (operation kind : String) (target : Option String)
  | operationCompleted (operation : String) (status : StepStatus) (value : Option Json)
  | operationSkipped (operation reason : String)
  | notification (level : Level) (message : String)
  | costCharged (operation pool : String) (actions stamina : Binary64)
  | damageDealt (operation : String) (damage : DamageDealt)
  | testResolved (operation target : String) (success : Bool) (actorTotal targetTotal : Binary64)
  | resourceChanged (operation resource : String) (value : Binary64)
  | forked (operation : String) (targets : List String)
  | branchHalted (operation : String) (target : Option String) (kind : FailureKind)
      (reason : String)
  | suspended (operation token : String)

end Tabletop
