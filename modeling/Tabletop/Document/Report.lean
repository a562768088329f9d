import Tabletop.Document.Prompt
import Tabletop.Report

namespace Tabletop

namespace Event

def content : Event → String × List (String × Json)
  | .runStarted activity operationCount =>
    ("RunStarted", [("activity", .str activity), ("operation_count", .ofNat operationCount)])
  | .runFinished activity halted =>
    ("RunFinished", [("activity", .str activity),
      ("status", .str (if halted then RunStatus.halted else RunStatus.completed).name)])
  | .operationStarted operation kind target =>
    ("OperationStarted", [("operation", .str operation), ("kind", .str kind),
      ("target", .ofOption .str target)])
  | .operationCompleted operation status value =>
    ("OperationCompleted", [("operation", .str operation), ("status", .str status.name),
      ("value", value.getD .null)])
  | .operationSkipped operation reason =>
    ("OperationSkipped", [("operation", .str operation), ("reason", .str reason)])
  | .notification level message =>
    ("Notification", [("level", .str level.name), ("message", .str message)])
  | .costCharged operation pool actions stamina =>
    ("CostCharged", [("operation", .str operation), ("pool", .str pool),
      ("actions", .ofReal actions), ("stamina", .ofReal stamina)])
  | .damageDealt operation damage =>
    ("DamageDealt", [("operation", .str operation), ("damage", damage.toJson)])
  | .testResolved operation target success actorTotal targetTotal =>
    ("TestResolved", [("operation", .str operation), ("target", .str target),
      ("success", .bool success), ("actor_total", .ofReal actorTotal),
      ("target_total", .ofReal targetTotal)])
  | .resourceChanged operation resource value =>
    ("ResourceChanged", [("operation", .str operation), ("resource", .str resource),
      ("value", .ofReal value)])
  | .forked operation targets =>
    ("Forked", [("operation", .str operation), ("targets", .names targets)])
  | .branchHalted operation target kind reason =>
    ("BranchHalted", [("operation", .str operation), ("target", .ofOption .str target),
      ("kind", .str kind.name), ("reason", .str reason)])
  | .suspended operation token =>
    ("Suspended", [("operation", .str operation), ("token", .str token)])

-- The name is the only member, and its value an object.
def toJson (e : Event) : Json := .record [(e.content.1, .record e.content.2)]

end Event

namespace StepRecord

def toJson (s : StepRecord) : Json := .record [
  ("operation", .str s.operation),
  ("target", .ofOption .str s.target),
  ("status", .str s.status.name),
  ("notes", .str s.notes)]

end StepRecord

namespace HaltRecord

def toJson (h : HaltRecord) : Json := .record [
  ("operation", .str h.operation),
  ("target", .ofOption .str h.target),
  ("kind", .str h.kind.name),
  ("reason", .str h.reason)]

end HaltRecord

namespace RunStatus

def toJson (s : RunStatus) : Json := .record (("status", .str s.name) ::
  match s with
  | .suspended token prompt => [("token", .str token), ("prompt", prompt.toJson)]
  | _ => [])

end RunStatus

namespace Report

def members (r : Report) : List (String × Json) := [
  ("status", r.status.toJson),
  ("steps", .arr (r.steps.map StepRecord.toJson)),
  ("halts", .arr (r.halts.map HaltRecord.toJson))]

def toJson (r : Report) : Json := .record r.members

end Report

end Tabletop
