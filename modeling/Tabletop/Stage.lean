import Tabletop.Activity
import Tabletop.Document.Entity
import Tabletop.Event
import Tabletop.Formula.Evaluation
import Tabletop.Formula.Placeholder
import Tabletop.Rules

namespace Tabletop

-- What the use of an item comes to: it is done, or something has to be finished first.
inductive ItemUse where
  | used (value : Option Binary64)
  | pending
deriving DecidableEq

-- What happens when somebody uses an item.
abbrev ItemRoutine := Keeper → Entity → Item → World → Except Failure ItemUse × World

namespace ItemRoutine

-- A consumable loses one unit; anything else is used as it is.
def consume : ItemRoutine := fun keeper actor item world =>
  if !item.consumable then (.ok (.used none), world)
  else if item.quantity = 0 then
    (.error (.precondition item.id (actor.name ++ " has no " ++ item.name ++ " left")), world)
  else
    match world.update keeper actor.id [.itemQuantity item.id (item.quantity - 1)] with
    | .ok world => (.ok (.used none), world)
    | .error failure => (.error failure, world)

end ItemRoutine

-- The circumstances of a walk, which it cannot change.
structure Setting where
  actor : String
  targets : List String := []
  combat : Option Combat := none
  role : Role := .player
  rules : Rules := {}
  keeper : Keeper := {}
  useItem : ItemRoutine := ItemRoutine.consume
  -- The tickets for prompts, in the order in which they are issued.
  tickets : Nat → Ticket := Ticket.numbered

namespace Setting

def isPrivileged (s : Setting) : Bool := s.rules.privilegedRole.rank ≤ s.role.rank

-- Whether it is the actor's own turn; nothing outside combat.
def actorsTurn (s : Setting) : Option Bool :=
  s.combat.map fun c => c.activeCombatant == s.actor

end Setting

-- All that an operation can change.
structure Stage where
  records : Records
  ledger : Ledger
  world : World
  dice : Dice
  events : List Event

-- What is done before a failure stays done.
abbrev Act := ExceptT Failure (StateM Stage)

-- An operation that is carried out, and where.
structure Visit where
  setting : Setting
  plan : Plan
  op : Operation

namespace Act

def emit (e : Event) : Act Unit :=
  modify fun s => { s with events := s.events ++ [e] }

def announce (level : Level) (message : String) : Act Unit :=
  emit (.notification level message)

def update (keeper : Keeper) (id : String) (changes : List Change) : Act Unit := do
  let s ← get
  match s.world.update keeper id changes with
  | .ok world => set { s with world }
  | .error failure => throw failure

end Act

namespace Visit

open Act

def precondition (v : Visit) (message : String) : Failure := .precondition v.op.id message

def rejected (v : Visit) (message : String) : Failure := .rejected v.op.id message

def entity (v : Visit) (id : String) : Act Entity := do
  match (← get).world.read v.setting.keeper id with
  | .ok e => return e
  | .error failure => throw failure

def actor (v : Visit) : Act Entity := do
  match (← get).world.read v.setting.keeper v.setting.actor with
  | .ok e => return e
  | .error (.unknownEntity _) =>
    throw (v.precondition ("acting entity '" ++ v.setting.actor ++ "' does not exist"))
  | .error failure => throw failure

-- Recorded values take the place of the placeholders.
def substitute (v : Visit) (text : String) : Act String := do
  match Placeholder.substitute text v.op.id (← get).records.value? with
  | .ok s => return s
  | .error failure => throw failure

def roll (text : String) (data : RollData) : Act Evaluation := fun s =>
  match (Formula.evaluate text data).run s.dice with
  | (result, dice) => (result, { s with dice })

-- A formula that cannot be evaluated counts as zero, with a warning.
def evaluate (v : Visit) (text : String) (data : RollData) : Act Evaluation := do
  let resolved ← v.substitute text
  tryCatch (roll resolved data) fun failure =>
    if failure.halts then throw failure
    else do
      announce .warning (v.op.label ++ ": " ++ failure.text ++ "; using 0")
      return Evaluation.zero

-- The data of the actor, with those of the bound target under `target` and those of the activity
-- under `activity`.
def rollData (v : Visit) (actor : Entity) (records : Records) : RollData :=
  let own := actor.rollData
  let withTarget := match records.target? with
    | some t => own.merge "target" t.rollData
    | none => own
  withTarget.extend "activity" v.plan.system

-- The selected targets. Those that are gone are left out, with a warning.
def selectedTargets (v : Visit) : Act (List Snapshot) := do
  let found ← v.setting.targets.mapM fun id => do
    match (← get).world.read v.setting.keeper id with
    | .ok e => return some e.snapshot
    | .error (.unknownEntity _) =>
      announce .warning ("Target '" ++ id ++ "' no longer exists")
      return none
    | .error failure => throw failure
  return found.filterMap id

-- The bound target, or else all that are selected.
def targets (v : Visit) : Act (List Snapshot) := do
  match (← get).records.target? with
  | some t => return [t]
  | none => v.selectedTargets

end Visit

inductive Result where
  | success
  | halted (reason : String)
  | forked (targets : List Snapshot)
  | suspended (prompt : Prompt)

def Result.status : Result → StepStatus
  | .success => .success
  | .halted _ => .halted
  | .forked _ => .forked
  | .suspended _ => .suspended

-- What an operation leaves: a value and further fields for its record, and a note for the report.
structure Outcome where
  result : Result
  value : Option Json := none
  fields : List (String × Json) := []
  notes : String := ""

namespace Outcome

def success (notes : String) (value : Option Json := none) (fields : List (String × Json) := []) :
    Outcome :=
  { result := .success, value, fields, notes }

def suspended (prompt : Prompt) (fields : List (String × Json) := []) : Outcome :=
  { result := .suspended prompt, fields, notes := prompt.title }

end Outcome

end Tabletop
