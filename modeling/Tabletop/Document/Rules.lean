import Tabletop.Document.Shape
import Tabletop.Rules

namespace Tabletop

open Document

def Role.read : Reader Role := oneOf Role.all Role.name

namespace TieBreak

def name : TieBreak → String
  | .actor => "actor"
  | .target => "target"

def read : Reader TieBreak := oneOf [.actor, .target] name

end TieBreak

namespace AttributePaths

def read : Reader AttributePaths := record do
  let d : AttributePaths := {}
  let turnPoints ← orElse ["turnPoints"] d.turnPoints text
  let interruptPoints ← orElse ["interruptPoints"] d.interruptPoints text
  let stamina ← orElse ["stamina"] d.stamina text
  let hp ← orElse ["hp"] d.hp text
  let armor ← orElse ["armor"] d.armor text
  let travelSpeed ← orElse ["travelSpeed"] d.travelSpeed text
  return { turnPoints, interruptPoints, stamina, hp, armor, travelSpeed }

def toJson (p : AttributePaths) : Json := .record [
  ("turnPoints", .str p.turnPoints),
  ("interruptPoints", .str p.interruptPoints),
  ("stamina", .str p.stamina),
  ("hp", .str p.hp),
  ("armor", .str p.armor),
  ("travelSpeed", .str p.travelSpeed)]

end AttributePaths

namespace Rules

def read : Reader Rules := record do
  let d : Rules := {}
  let targetRequired ← orElse ["targetRequired"] d.targetRequired flag
  let privilegedRole ← orElse ["privilegedRole"] d.privilegedRole Role.read
  let costsInCombatOnly ← orElse ["costsInCombatOnly"] d.costsInCombatOnly flag
  let enforceCosts ← orElse ["enforceCosts"] d.enforceCosts flag
  let paths ← orElse ["paths"] d.paths AttributePaths.read
  let checkDie ← orElse ["checkDie"] d.checkDie text
  let checkModifier ← orElse ["checkModifier"] d.checkModifier text
  let testTiesFavor ← orElse ["testTiesFavor"] d.testTiesFavor TieBreak.read
  return { targetRequired, privilegedRole, costsInCombatOnly, enforceCosts, paths, checkDie,
           checkModifier, testTiesFavor }

def toJson (r : Rules) : Json := .record [
  ("targetRequired", .bool r.targetRequired),
  ("privilegedRole", .str r.privilegedRole.name),
  ("costsInCombatOnly", .bool r.costsInCombatOnly),
  ("enforceCosts", .bool r.enforceCosts),
  ("paths", r.paths.toJson),
  ("checkDie", .str r.checkDie),
  ("checkModifier", .str r.checkModifier),
  ("testTiesFavor", .str r.testTiesFavor.name)]

end Rules

namespace Combat

def read : Reader Combat := record do
  let activeCombatant ← need "activeCombatant" text
  let round ← orElse ["round"] 0 nat32
  return { activeCombatant, round }

def toJson (c : Combat) : Json := .record [
  ("activeCombatant", .str c.activeCombatant),
  ("round", .ofNat c.round)]

end Combat

end Tabletop
