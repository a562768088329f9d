import Tabletop.Activity
import Tabletop.Formula.Placeholder

-- What can be wrong with an activity before it runs.
namespace Tabletop

inductive Severity where
  | error
  | warning
  | info
deriving DecidableEq, Inhabited

def Severity.name : Severity → String
  | .error => "error"
  | .warning => "warning"
  | .info => "info"

structure Diagnostic where
  rule : String
  severity : Severity
  message : String
  operation : Option String
deriving DecidableEq

namespace Validation

def finding (rule : String) (severity : Severity) (op : Operation) (message : String) :
    Diagnostic :=
  ⟨rule, severity, message, some op.id⟩

def quoted (s : String) : String := "'" ++ s ++ "'"

-- The place of an id in the order of execution; of operations with one id the last counts.
def place? (plan : Plan) (id : String) : Option Nat :=
  (plan.order.mapIdx fun i op => (op.id, i)).reverse.lookup id

def idFault? (seen : List String) (id : String) : Option String :=
  if Text.allBlank id then some "Operation has an empty id"
  else if !Placeholder.isName id then
    some ("Operation id " ++ quoted id ++
      " must start with a letter or '_' and contain only letters, digits, or '_'")
  else if id = Records.targetKey then
    some ("Operation id " ++ quoted id ++ " is reserved for the bound target")
  else if seen.contains id then
    some ("Operation id " ++ quoted id ++ " is used more than once")
  else none

def uniqueIdsFrom (seen : List String) : List Operation → List Diagnostic
  | [] => []
  | op :: rest =>
    match idFault? seen op.id with
    | some message => finding "unique_ids" .error op message :: uniqueIdsFrom seen rest
    | none => uniqueIdsFrom (op.id :: seen) rest

def uniqueIds (a : Activity) : List Diagnostic := uniqueIdsFrom [] a.operations

-- A finding per reference of every formula of every operation, as `judge` says.
def perReference (a : Activity) (judge : Operation → String → Option Diagnostic) :
    List Diagnostic :=
  a.operations.flatMap fun op =>
    op.formulas.flatMap fun formula => (Placeholder.ids formula).filterMap (judge op)

def placeholderRefs (a : Activity) : List Diagnostic :=
  perReference a fun op id =>
    if !Placeholder.isName id then
      some (finding "placeholder_refs" .error op
        (quoted op.label ++ " has a malformed placeholder " ++ quoted ("#" ++ id)))
    else if (place? a.toPlan id).isNone then
      some (finding "placeholder_refs" .error op
        (quoted op.label ++ " references unknown operation " ++ quoted ("#" ++ id)))
    else none

def forwardPlaceholder (a : Activity) : List Diagnostic :=
  perReference a fun op id =>
    match place? a.toPlan op.id, place? a.toPlan id with
    | some own, some referenced =>
      if own ≤ referenced then
        some (finding "forward_placeholder" .warning op
          (quoted op.label ++ " uses " ++ quoted ("#" ++ id) ++ ", which does not run before it"))
      else none
    | _, _ => none

-- The ids that a selection can lead to.
def offered (kind : OperationKind) : List String :=
  match kind with
  | .selectOperation operations _ => operations
  | .selectOption options _ => options.filterMap OptionEntry.continueFrom
  | _ => []

def selectRefs (a : Activity) : List Diagnostic :=
  a.operations.flatMap fun op =>
    (offered op.kind).filterMap fun id =>
      if id = op.id then
        some (finding "select_refs" .error op (quoted op.label ++ " offers itself as a choice"))
      else if (place? a.toPlan id).isNone then
        some (finding "select_refs" .error op
          (quoted op.label ++ " offers unknown operation " ++ quoted id))
      else none

def creates (id : String) (op : Operation) : Bool :=
  match op.kind with
  | .createResource .. => op.id == id
  | _ => false

def resourceRefs (a : Activity) : List Diagnostic :=
  a.operations.filterMap fun op =>
    match op.kind with
    | .consumeResource resource _ =>
      if a.operations.any (creates resource) || Dict.contains a.ledger resource then none
      else
        some (finding "resource_refs" .error op
          (quoted op.label ++ " consumes " ++ quoted resource ++
            ", which no createResource operation creates"))
    | _ => none

def danglingFork (a : Activity) : List Diagnostic :=
  match a.order.getLast? with
  | none => []
  | some op =>
    match op.kind with
    | .target _ | .test _ =>
      [finding "dangling_fork" .info op (quoted op.label ++ " forks but nothing runs after it")]
    | _ => []

def emptyDamages (a : Activity) : List Diagnostic :=
  a.operations.filterMap fun op =>
    match op.kind with
    | .attack [] _ =>
      some (finding "empty_damages" .warning op
        ("Attack " ++ quoted op.label ++ " has no damage entries"))
    | _ => none

end Validation

namespace Activity

def diagnostics (a : Activity) : List Diagnostic :=
  Validation.uniqueIds a ++ Validation.placeholderRefs a ++ Validation.forwardPlaceholder a ++
    Validation.selectRefs a ++ Validation.resourceRefs a ++ Validation.danglingFork a ++
    Validation.emptyDamages a

def errors (a : Activity) : List String :=
  a.diagnostics.filterMap fun d => if d.severity = .error then some d.message else none

-- Warnings do not keep an activity from running.
def validate (a : Activity) : Except Failure (List Diagnostic) :=
  if a.errors.isEmpty then .ok a.diagnostics
  else .error (.invalid ("; ".intercalate a.errors))

end Activity

end Tabletop
