import Tabletop.Activity
import Tabletop.Validation

-- What the program shows of an activity.
namespace Tabletop.Cli

namespace Info

def orZero (formula : String) : String := if Text.allBlank formula then "0" else formula

def remarks (op : Operation) : List String :=
  (if op.immediate then [] else ["deferred"]) ++
  (if op.costs.isFree then []
    else ["costs " ++ orZero op.costs.actions ++ "/" ++ orZero op.costs.stamina ++ " stamina"]) ++
  (if op.performance.combatOnly then ["combat only"] else [])

def padded (width n : Nat) : String :=
  let digits := toString n
  String.ofList (List.replicate (width - digits.length) ' ') ++ digits

def operationLine (position : Nat) (op : Operation) : String :=
  let note := if (remarks op).isEmpty then "" else " (" ++ Text.commaList (remarks op) ++ ")"
  "  " ++ padded 2 (position + 1) ++ ". " ++ op.label ++ " [" ++ op.kind.name ++ "] priority=" ++
    toString op.priority ++ note

def resourceLine (r : Resource) : String :=
  "  resource " ++ r.id ++ ": " ++ r.name ++ " " ++ r.value.format ++ "/" ++ r.maximum.format

def lines (a : Activity) : List String :=
  ["Activity: " ++ a.name ++ " (" ++ a.id ++ ")",
   "Operations: " ++ toString a.operations.length] ++
  (if Dict.isEmpty a.ledger then [] else ["Resources: " ++ toString (Dict.size a.ledger)]) ++
  (a.pending.toList.map fun p => "Waiting on: " ++ p.operation ++ " (" ++ p.prompt.title ++ ")") ++
  ["", "Execution order:"] ++ a.order.mapIdx operationLine ++
  (Dict.values a.ledger).map resourceLine

end Info

def Severity.mark : Severity → String
  | .error => "ERROR"
  | .warning => "WARN"
  | .info => "INFO"

def diagnosticLine (d : Diagnostic) : String :=
  "[" ++ Severity.mark d.severity ++ "] " ++ d.rule ++ " (" ++ d.operation.getD "-" ++ "): " ++
    d.message

end Tabletop.Cli
