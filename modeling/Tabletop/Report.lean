import Tabletop.Event
import Tabletop.Prompt

namespace Tabletop

-- An operation that was visited, and the target that was bound at the time.
structure StepRecord where
  operation : String
  target : Option String
  status : StepStatus
  notes : String
deriving DecidableEq

-- A branch that ended early, and why.
structure HaltRecord where
  operation : String
  target : Option String
  kind : FailureKind
  reason : String
deriving DecidableEq

-- How a walk stands when nothing more can be done. It halted when any branch ended early.
inductive RunStatus where
  | completed
  | halted
  | suspended (token : String) (prompt : Prompt)
deriving DecidableEq

def RunStatus.name : RunStatus → String
  | .completed => "completed"
  | .halted => "halted"
  | .suspended .. => "suspended"

structure Report where
  status : RunStatus
  steps : List StepRecord
  halts : List HaltRecord
deriving DecidableEq

namespace Report

-- The visits that carried the operation out.
def performed (r : Report) (operation : String) : List StepRecord :=
  r.steps.filter fun s => s.operation == operation && s.status != .skipped

def executions (r : Report) (operation : String) : Nat := (r.performed operation).length

def targetsOf (r : Report) (operation : String) : List (Option String) :=
  (r.performed operation).map StepRecord.target

def isSuspended (r : Report) : Bool :=
  match r.status with
  | .suspended .. => true
  | _ => false

-- The report of a walk with that of its continuation, which tells the status.
def followedBy (r next : Report) : Report :=
  ⟨next.status, r.steps ++ next.steps, r.halts ++ next.halts⟩

end Report

end Tabletop
