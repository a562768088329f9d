import Tabletop.Walk.Run

-- What an operation costs its actor, and the statuses that it flips.
namespace Tabletop

def Setting.costsApply (s : Setting) : Bool :=
  s.rules.enforceCosts && !(s.rules.costsInCombatOnly && s.combat.isNone)

-- So much of a pool, and the word for it.
structure Draw where
  pool : String
  amount : Binary64
  word : String

namespace Visit

open Act

-- The pool that action points come from.
def pointsPool (v : Visit) : String :=
  let paths := v.setting.rules.paths
  match v.op.costs.category with
  | .turn => paths.turnPoints
  | .interrupt => paths.interruptPoints
  | .current =>
    if v.setting.actorsTurn = some true then paths.turnPoints else paths.interruptPoints

-- The pool after the draw. A pool that is missing is empty.
def draw (v : Visit) (actor : Entity) (d : Draw) : Except Failure Change :=
  let path := d.pool ++ ".value"
  let available := (actor.number? path).getD 0
  if available < d.amount then
    .error (v.precondition ("needs " ++ d.amount.format ++ " " ++ d.word ++ ", " ++ actor.name ++
      " has " ++ available.format))
  else .ok (.set path (.ofNumber (available - d.amount)))

-- Both draws are made, or none.
def pay (v : Visit) : Act Unit := do
  let actor ← v.actor
  let data := v.rollData actor (← get).records
  let actions ← v.evaluate v.op.costs.actions data
  let stamina ← v.evaluate v.op.costs.stamina data
  let points : Draw := ⟨v.pointsPool, actions.total.positivePart, "action points"⟩
  let breath : Draw := ⟨v.setting.rules.paths.stamina, stamina.total.positivePart, "stamina"⟩
  match ([points, breath].filter fun d => 0 < d.amount).mapM (v.draw actor) with
  | .error failure => throw failure
  | .ok changes =>
    if !changes.isEmpty then update v.setting.keeper actor.id changes
    emit (.costCharged v.op.id points.pool points.amount breath.amount)

-- An operation is paid for once in an invocation.
def charge (v : Visit) (run : Run) : Except Failure Unit × Run :=
  if !v.setting.costsApply || v.op.costs.isFree || Dict.contains run.charged v.op.id then
    (.ok (), run)
  else
    match run.act v.pay with
    | (.ok (), run) => (.ok (), { run with charged := run.charged.add v.op.id })
    | (.error failure, run) => (.error failure, run)

def announceToggles (v : Visit) (actor : Entity) : Act Unit :=
  v.op.toggles.statuses.forM fun status =>
    let verb := if Dict.contains actor.statuses status then " loses " else " gains "
    announce .info (actor.name ++ verb ++ status)

-- An actor that cannot be read or updated keeps its statuses.
def toggle (v : Visit) : Act Unit := do
  let toggles := v.op.toggles
  if !toggles.statuses.isEmpty then
    tryCatch (do
        let actor ← v.entity v.setting.actor
        update v.setting.keeper actor.id (toggles.statuses.map Change.toggleStatus)
        if toggles.announce then v.announceToggles actor)
      fun _ => pure ()

end Visit

end Tabletop
