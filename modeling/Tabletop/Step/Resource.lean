import Tabletop.Stage

-- Pools of the activity, and the restoring of pools of entities.
namespace Tabletop.Visit

open Act

-- A pool is made once; later visits only tell its value.
def createResource (v : Visit) (name maximum : String) (negativeAllowed : Bool)
    (reset : ResetTrigger) : Act Outcome := do
  match Dict.find? (← get).ledger v.op.id with
  | some existing =>
    return .success (existing.name ++ " already exists") (some (.ofNumber existing.value))
      [("created", .bool false)]
  | none =>
    let actor ← v.actor
    let data := v.rollData actor (← get).records
    let e ← v.evaluate maximum data
    let resource : Resource :=
      { id := v.op.id, name, maximumFormula := maximum, maximum := e.total, value := e.total,
        negativeAllowed, reset }
    modify fun s => { s with ledger := (s.ledger.create resource).2 }
    emit (.resourceChanged v.op.id name e.total)
    return .success (name ++ " created with " ++ e.total.format) (some (.ofNumber e.total))
      [("maximum", .ofNumber e.total), ("created", .bool true)]

-- The record of the operation that made the pool follows its value.
def consumeResource (v : Visit) (resource amount : String) : Act Outcome := do
  match Dict.find? (← get).ledger resource with
  | none => throw (v.precondition (LedgerFault.missing resource).message)
  | some existing =>
    let actor ← v.actor
    let data := v.rollData actor (← get).records
    let e ← v.evaluate amount data
    match (← get).ledger.consume resource e.total with
    | .error fault => throw (v.precondition fault.message)
    | .ok (left, ledger) =>
      modify fun s =>
        { s with ledger, records := s.records.setValue resource (.ofNumber left) }
      emit (.resourceChanged v.op.id existing.name left)
      return .success ("spent " ++ e.total.format ++ " " ++ existing.name ++ ", " ++
          left.format ++ " left") (some (.ofNumber e.total))
        [("remaining", .ofNumber left)]

structure Restored where
  resource : String
  before : Binary64
  after : Binary64
deriving DecidableEq

namespace Restored

def gain (r : Restored) : Binary64 := r.after - r.before

def total (rs : List Restored) : Binary64 := rs.foldl (fun sum r => sum + r.gain) 0

def toJson (r : Restored) : Json := .record [
  ("resource", .str r.resource),
  ("before", .ofReal r.before),
  ("after", .ofReal r.after)]

end Restored

-- Who is restored. A target has to be a single one.
def recipientId (v : Visit) (recipient : Recipient) : Act String := do
  match recipient with
  | .actor => return v.setting.actor
  | .target =>
    match ← v.targets with
    | [t] => return t.id
    | [] => throw (v.precondition "no target to restore")
    | several =>
      throw (v.precondition (toString several.length ++
        " targets selected, restoring needs exactly one"))

-- The new quantities of the components' items, or why there are not enough of them.
def spend (v : Visit) (actor : Entity) (components : List Component) :
    Except Failure (List Change) :=
  components.mapM fun c =>
    match actor.item? c.item with
    | none => .error (v.precondition (actor.name ++ " has no " ++ c.item))
    | some item =>
      if item.quantity < c.quantity then
        .error (v.precondition ("not enough " ++ item.name ++ ": need " ++ toString c.quantity ++
          ", have " ++ toString item.quantity))
      else .ok (.itemQuantity item.id (item.quantity - c.quantity))

-- A pool rises by the amount, though not above its maximum, and never falls.
def raised (before amount : Binary64) (maximum : Option Binary64) : Binary64 :=
  let after := before + amount.positivePart
  match maximum with
  | some m => Binary64.min after (Binary64.max m before)
  | none => after

def restorePool (v : Visit) (target : Entity) (pool : String) (amount : Binary64) :
    Except Failure Restored :=
  match target.number? (pool ++ ".value") with
  | none =>
    .error (v.precondition (target.name ++ " has no '" ++ pool ++ "' to restore"))
  | some before => .ok ⟨pool, before, raised before amount (target.number? (pool ++ ".max"))⟩

-- Raises the pools and spends the components. Another recipient is restored first, so that
-- nothing is spent when that fails.
def restore (v : Visit) (actor : Entity) (recipient : String)
    (pools : List (String × Binary64)) (components : List Change) : Act (List Restored) := do
  let target ← if recipient = actor.id then pure actor else v.entity recipient
  match pools.mapM fun (pool, amount) => v.restorePool target pool amount with
  | .error failure => throw failure
  | .ok restored =>
    let changes := restored.map fun r => Change.set (r.resource ++ ".value") (.ofNumber r.after)
    if recipient = actor.id then
      update v.setting.keeper actor.id (changes ++ components)
    else
      update v.setting.keeper recipient changes
      if !components.isEmpty then update v.setting.keeper actor.id components
    return restored

def spendOrThrow (v : Visit) (actor : Entity) (components : List Component) :
    Act (List Change) := do
  match v.spend actor components with
  | .ok changes => return changes
  | .error failure => throw failure

def heal (v : Visit) (formula : String) (resource : Option String) (recipient : Recipient)
    (components : List Component) : Act Outcome := do
  let actor ← v.actor
  let recipient ← v.recipientId recipient
  let spent ← v.spendOrThrow actor components
  let data := v.rollData actor (← get).records
  let e ← v.evaluate formula data
  let pool := resource.getD v.setting.rules.paths.hp
  let restored ← v.restore actor recipient [(pool, e.total)] spent
  let gained := Restored.total restored
  let resulting := (restored.head?.map Restored.after).getD 0
  let notes := "restored " ++ gained.format
  announce .info notes
  return .success notes (some (.ofNumber gained))
    [("resulting", .ofNumber resulting), ("restored", .arr (restored.map Restored.toJson))]

def consumption (v : Visit) (restores : List Restore) (components : List Component)
    (recipient : Recipient) : Act Outcome := do
  let actor ← v.actor
  let recipient ← v.recipientId recipient
  let spent ← v.spendOrThrow actor components
  let data := v.rollData actor (← get).records
  let pools ← restores.mapM fun r => do
    let e ← v.evaluate r.formula data
    return (r.resource, e.total)
  let restored ← v.restore actor recipient pools spent
  let notes := Text.commaList (restored.map fun r => r.resource ++ " +" ++ r.gain.format)
  announce .info (v.op.label ++ ": " ++ notes)
  return .success notes (some (.ofNumber (Restored.total restored)))
    [("restored", .arr (restored.map Restored.toJson))]

end Tabletop.Visit
