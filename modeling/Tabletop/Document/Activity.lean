import Tabletop.Activity
import Tabletop.Document.Operation

namespace Tabletop

open Document

namespace Resource

def read : Reader Resource := record do
  let id ← need "id" text
  let name ← need "resourceName" text
  let maximumFormula ← need "maximumFormula" text
  let maximum ← need "maximum" real
  let value ← need "value" real
  let negativeAllowed ← need "negativeAllowed" flag
  let reset ← need "reset" ResetTrigger.read
  return { id, name, maximumFormula, maximum, value, negativeAllowed, reset }

def toJson (r : Resource) : Json := .record [
  ("id", .str r.id),
  ("resourceName", .str r.name),
  ("maximumFormula", .str r.maximumFormula),
  ("maximum", .ofReal r.maximum),
  ("value", .ofReal r.value),
  ("negativeAllowed", .bool r.negativeAllowed),
  ("reset", r.reset.toJson)]

end Resource

namespace Ledger

def read : Reader Ledger := dict Resource.read

def toJson (l : Ledger) : Json := .ofDict (Dict.mapValues (fun _ r => r.toJson) l)

end Ledger

def Records.read : Reader Records := dict value

def Records.toJson (r : Records) : Json := .ofDict r

namespace Activity

def read : Reader Activity := record do
  let id ← need "id" text
  let name ← orElse ["name"] "" text
  let system ← orElse ["system"] .null value
  let operations ← orElse ["operations"] [] (list Operation.read)
  let records ← orElse ["operationData"] {} Records.read
  let ledger ← orElse ["ledger"] {} Ledger.read
  let pending ← maybe "pending" Pending.read
  let charged ← orElse ["charged"] Dict.empty names
  return { id, name, system, operations, records, ledger, pending, charged }

-- A prompt shows only while there is one.
def toJson (a : Activity) : Json := .record ([
  ("id", .str a.id),
  ("name", .str a.name),
  ("system", a.system),
  ("operations", .arr (a.operations.map Operation.toJson)),
  ("operationData", a.records.toJson),
  ("ledger", a.ledger.toJson),
  ("charged", .names a.charged.toList)] ++
  a.pending.toList.map fun p => ("pending", p.toJson))

def ofText? (s : String) : Option Activity := (Json.read? s).bind read

end Activity

end Tabletop
