import Tabletop.Stage

-- Operations of the acting entity on itself: use of items, flags and travel.
namespace Tabletop.Visit

open Act

def resolveItems (v : Visit) (actor : Entity) (source : UseSource) : Except Failure (List String) :=
  match source with
  | .item reference =>
    match actor.item? reference with
    | some item => .ok [item.id]
    | none => .error (v.precondition (actor.name ++ " does not own '" ++ reference ++ "'"))
  | .slot slot policy =>
    let items := (actor.itemsIn slot).map Item.id
    let chosen := match policy with
      | .upTo n => items.take n
      | _ => items
    if policy = .single && 1 < items.length then
      .error (v.precondition (toString items.length ++ " items in slot '" ++ slot ++
        "', expected exactly one"))
    else if chosen.isEmpty then
      .error (v.precondition ("nothing to use in slot '" ++ slot ++ "'"))
    else .ok chosen

def runItem (v : Visit) (actor : Entity) (item : Item) : Act ItemUse := fun s =>
  match v.setting.useItem v.setting.keeper actor item s.world with
  | (result, world) => (result, { s with world })

-- Uses the items of the queue one by one. An item that is not done yet suspends the operation,
-- and the record keeps what was used and what remains.
def useQueue (v : Visit) (used : List String) : List String → Act Outcome
  | [] =>
    return .success ("used " ++ Text.commaList used) (some (.ofNat used.length))
      [("used", .names used), ("remaining", .names [])]
  | reference :: rest => do
    let actor ← v.actor
    match actor.item? reference with
    | none => throw (v.precondition (actor.name ++ " no longer owns '" ++ reference ++ "'"))
    | some item =>
      let used := used ++ [item.id]
      match ← v.runItem actor item with
      | .used _ => v.useQueue used rest
      | .pending =>
        return .suspended ⟨"Waiting for " ++ item.name ++ " to finish", .acknowledge⟩
          [("used", .names used), ("remaining", .names rest)]

def use (v : Visit) (source : UseSource) : Act Outcome := do
  let actor ← v.actor
  match v.resolveItems actor source with
  | .ok queue => v.useQueue [] queue
  | .error failure => throw failure

-- A list of names in the record of an operation; anything else counts as none.
def recordedNames (r : Records) (operation field : String) : List String :=
  (((r.find? operation).bind (Json.member? field)).bind (Document.list Document.text)).getD []

-- The item that was waited for is done; the rest follows.
def useRest (v : Visit) (answer : Answer) : Act Outcome := do
  match answer with
  | .acknowledge =>
    let records := (← get).records
    v.useQueue (recordedNames records v.op.id "used") (recordedNames records v.op.id "remaining")
  | _ => throw (v.rejected "expected an acknowledgement")

def setFlag (v : Visit) (key value : String) : Act Outcome := do
  let actor ← v.actor
  let raw ← v.substitute value
  let value := Json.ofLiteral raw
  update v.setting.keeper actor.id [.setFlag key value]
  return .success (key ++ " set on " ++ actor.name) (some value)

def travel (v : Visit) (formula : String) : Act Outcome := do
  let actor ← v.actor
  let path := v.setting.rules.paths.travelSpeed
  let speed ← match actor.number? path with
    | some speed => pure speed
    | none => do
      announce .warning (actor.name ++ " has no travel speed at '" ++ path ++ "'")
      pure 0
  let data := v.rollData actor (← get).records
  let modifier ← v.evaluate formula data
  let distance := (speed + modifier.total).positivePart
  let notes := actor.name ++ " can travel " ++ distance.format
  announce .info notes
  return .success notes (some (.ofNumber distance))
    [("speed", .ofNumber speed), ("modifier", .ofNumber modifier.total)]

end Tabletop.Visit
