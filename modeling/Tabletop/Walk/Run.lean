import Tabletop.Report
import Tabletop.Stage

namespace Tabletop

-- A walk under way: what it can change, what was paid for, and what there is to report.
structure Run extends Stage where
  charged : Names
  steps : List StepRecord := []
  halts : List HaltRecord := []

namespace Run

-- Changes of the stage stay, also when the act fails.
def act (run : Run) (a : Act α) : Except Failure α × Run :=
  match a.run run.toStage with
  | (result, stage) => (result, { run with toStage := stage })

def emit (run : Run) (events : List Event) : Run := { run with events := run.events ++ events }

def bind (run : Run) (target : Option Snapshot) : Run :=
  { run with records := run.records.bind target }

end Run

-- How a host hears of a branch that ended early.
def FailureKind.level : FailureKind → Level
  | .cancellation => .info
  | .internal => .error
  | _ => .warning

namespace Visit

def halt (v : Visit) (target : Option String) (kind : FailureKind) (reason : String) (run : Run) :
    Run :=
  { run.emit [.notification kind.level (v.op.label ++ ": " ++ reason),
      .branchHalted v.op.id target kind reason] with
    halts := run.halts ++ [⟨v.op.id, target, kind, reason⟩] }

def skip (v : Visit) (target : Option String) (reason : String) (run : Run) : Run :=
  { run.emit [.operationSkipped v.op.id reason] with
    steps := run.steps ++ [⟨v.op.id, target, .skipped, reason⟩] }

def announceStart (v : Visit) (target : Option String) (run : Run) : Run :=
  run.emit [.operationStarted v.op.id v.op.kind.name target]

-- The value first and then the further fields go into the record of the operation.
def record (v : Visit) (outcome : Outcome) (records : Records) : Records :=
  let valued := match outcome.value with
    | some value => records.setValue v.op.id value
    | none => records
  if outcome.fields.isEmpty then valued else valued.merge v.op.id outcome.fields

def complete (v : Visit) (target : Option String) (outcome : Outcome) (run : Run) : Run :=
  { run.emit [.operationCompleted v.op.id outcome.result.status outcome.value] with
    records := v.record outcome run.records
    steps := run.steps ++ [⟨v.op.id, target, outcome.result.status, outcome.notes⟩] }

end Visit

end Tabletop
