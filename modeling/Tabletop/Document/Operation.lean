import Tabletop.Document.Prompt
import Tabletop.Operation

namespace Tabletop

open Document

def ResetTrigger.readAs (vacant : Option Json → Bool) : Reader ResetTrigger :=
  oneOf ResetTrigger.all ResetTrigger.name vacant

def ResetTrigger.read : Reader ResetTrigger := ResetTrigger.readAs isUnit

def ResetTrigger.toJson (t : ResetTrigger) : Json := .str t.name

namespace CostCategory

def name : CostCategory → String
  | .turn => "turn"
  | .interrupt => "interrupt"
  | .current => "current"

def read : Reader CostCategory := oneOf [.turn, .interrupt, .current] name

end CostCategory

namespace Costs

def read : Reader Costs := record do
  let actions ← orElse ["actions"] "" text
  let category ← orElse ["category"] .turn CostCategory.read
  let stamina ← orElse ["stamina"] "" text
  return { actions, category, stamina }

def toJson (c : Costs) : Json := .record [
  ("actions", .str c.actions),
  ("category", .str c.category.name),
  ("stamina", .str c.stamina)]

end Costs

namespace Performance

def read : Reader Performance := record do
  let combatOnly ← orElse ["combatOnly"] false flag
  let ownTurn ← orElse ["ownTurn"] true flag
  let othersTurn ← orElse ["othersTurn"] true flag
  return { combatOnly, ownTurn, othersTurn }

def toJson (p : Performance) : Json := .record [
  ("combatOnly", .bool p.combatOnly),
  ("ownTurn", .bool p.ownTurn),
  ("othersTurn", .bool p.othersTurn)]

end Performance

namespace ToggleEffects

def read : Reader ToggleEffects := record do
  let statuses ← orElse ["statuses"] [] (list text)
  let announce ← orElse ["notify"] false flag
  return { statuses, announce }

def toJson (t : ToggleEffects) : Json := .record [
  ("statuses", .names t.statuses),
  ("notify", .bool t.announce)]

end ToggleEffects

namespace Damage

def read : Reader Damage := record do
  let formula ← need "formula" text
  let damageType ← orElse ["damageType", "type"] "physical" text
  let penetrate ← orElse ["penetrate"] false flag
  let nonLethal ← orElse ["nonLethal"] false flag
  return { formula, damageType, penetrate, nonLethal }

def toJson (d : Damage) : Json := .record [
  ("formula", .str d.formula),
  ("damageType", .str d.damageType),
  ("penetrate", .bool d.penetrate),
  ("nonLethal", .bool d.nonLethal)]

end Damage

namespace OverrideStage

def name : OverrideStage → String
  | .beforeModifiers => "beforeModifiers"
  | .afterModifiers => "afterModifiers"

def read : Reader OverrideStage :=
  oneOf [.beforeModifiers, .afterModifiers] name saysNothing

end OverrideStage

namespace RollOverride

def read : Reader RollOverride := record do
  let threshold ← need "threshold" real
  let value ← need "value" real
  let stage ← orElse ["stage"] .beforeModifiers OverrideStage.read
  return { threshold, value, stage }

def toJson (o : RollOverride) : Json := .record [
  ("threshold", .ofReal o.threshold),
  ("value", .ofReal o.value),
  ("stage", .str o.stage.name)]

end RollOverride

namespace TestAgainst

def read : Reader TestAgainst := fun j =>
  match case? j with
  | some ("actorCheck", some v) => (text v).map .actorCheck
  | some ("difficulty", some v) => (text v).map .difficulty
  | _ => none

def toJson : TestAgainst → Json
  | .actorCheck check => .record [("actorCheck", .str check)]
  | .difficulty formula => .record [("difficulty", .str formula)]

end TestAgainst

namespace TestSpec

def read : Reader TestSpec := record do
  let targetCheck ← need "targetCheck" text
  let against ← need "against" TestAgainst.read
  return { targetCheck, against }

def toJson (s : TestSpec) : Json := .record [
  ("targetCheck", .str s.targetCheck),
  ("against", s.against.toJson)]

end TestSpec

namespace Predicate

def readAs (vacant : Option Json → Bool) : Reader Predicate := record do
  let source ← need "source" (oneOf Source.all Source.name vacant)
  let key ← need "key" text
  let comparison ← need "comparison" (oneOf Comparison.all Comparison.symbol vacant)
  let value ← orElse ["value"] "" text
  let priority ← orElse ["priority"] 0 int32
  return { source, key, comparison, value, priority }

def read : Reader Predicate := readAs isUnit

def toJson (p : Predicate) : Json := .record [
  ("source", .str p.source.name),
  ("key", .str p.key),
  ("comparison", .str p.comparison.symbol),
  ("value", .str p.value),
  ("priority", .int p.priority)]

end Predicate

namespace AppliesTo

def name : AppliesTo → String
  | .each => "each"
  | .random => "random"

def read : Reader AppliesTo := oneOf [.each, .random] name saysNothing

end AppliesTo

namespace SlotPolicy

def read : Reader SlotPolicy := fun j =>
  match case? j with
  | some ("single", content) => if saysNothing content then some .single else none
  | some ("all", content) => if saysNothing content then some .all else none
  | some ("upTo", some v) => (nat32 v).map .upTo
  | _ => none

def toJson : SlotPolicy → Json
  | .single => .str "single"
  | .upTo n => .record [("upTo", .ofNat n)]
  | .all => .str "all"

end SlotPolicy

namespace UseSource

def readSlot : Reader UseSource := record do
  let slot ← need "slot" text
  let policy ← orElse ["policy"] .single SlotPolicy.read
  return .slot slot policy

def read : Reader UseSource := fun j =>
  match case? j with
  | some ("item", some v) => (text v).map .item
  | some ("slot", some v) => readSlot v
  | _ => none

def toJson : UseSource → Json
  | .item reference => .record [("item", .str reference)]
  | .slot name policy =>
    .record [("slot", .record [("slot", .str name), ("policy", policy.toJson)])]

end UseSource

namespace Recipient

def name : Recipient → String
  | .actor => "self"
  | .target => "target"

def read : Reader Recipient := oneOf [.actor, .target] name saysNothing

end Recipient

namespace Component

def read : Reader Component := record do
  let item ← need "item" text
  let quantity ← orElse ["quantity"] 1 nat32
  return { item, quantity }

def toJson (c : Component) : Json := .record [
  ("item", .str c.item),
  ("quantity", .ofNat c.quantity)]

end Component

namespace Restore

def read : Reader Restore := record do
  let resource ← need "resource" text
  let formula ← need "formula" text
  return { resource, formula }

def toJson (r : Restore) : Json := .record [
  ("resource", .str r.resource),
  ("formula", .str r.formula)]

end Restore

namespace OptionEntry

def read : Reader OptionEntry := record do
  let label ← need "label" text
  let value ← orElse ["value"] .null Document.value
  let continueFrom ← maybe "continueFrom" text
  return { label, value, continueFrom }

def toJson (o : OptionEntry) : Json := .record [
  ("label", .str o.label),
  ("value", o.value),
  ("continueFrom", .ofOption .str o.continueFrom)]

end OptionEntry

namespace OperationKind

def tags : List String :=
  ["attack", "check", "test", "condition", "target", "use", "createResource", "consumeResource",
   "heal", "consumption", "setFlag", "variable", "travel", "selectOperation", "selectOption",
   "message"]

def payload : String → FieldReader OperationKind
  | "attack" => do
    let damages ← orElse ["damages"] [] (list Damage.read)
    let applyDamage ← orElse ["applyDamage"] false flag
    return .attack damages applyDamage
  | "check" => do
    let check ← need "check" text
    let override ← maybe "rollOverride" RollOverride.read
    let difficulty ← maybe "difficulty" text
    return .check check override difficulty
  | "test" => do
    let friendly ← maybe "friendly" TestSpec.read
    let neutral ← maybe "neutral" TestSpec.read
    let hostile ← maybe "hostile" TestSpec.read
    let secret ← maybe "secret" TestSpec.read
    let default ← maybe "default" TestSpec.read
    return .test { friendly, neutral, hostile, secret, default }
  | "condition" => do
    let conditions ← orElse ["conditions"] [] (list (Predicate.readAs saysNothing))
    let proceedAnyway ← orElse ["proceedAnyway"] false flag
    return .condition conditions proceedAnyway
  | "target" => return .target (← orElse ["appliesTo"] .each AppliesTo.read)
  | "use" => return .use (← need "source" UseSource.read)
  | "createResource" => do
    let name ← need "resourceName" text
    let maximum ← need "maximum" text
    let negativeAllowed ← orElse ["negativeAllowed"] false flag
    let reset ← orElse ["reset"] .never (ResetTrigger.readAs saysNothing)
    return .createResource name maximum negativeAllowed reset
  | "consumeResource" => do
    let resource ← need "resource" text
    let amount ← need "amount" text
    return .consumeResource resource amount
  | "heal" => do
    let formula ← need "formula" text
    let resource ← maybe "resource" text
    let recipient ← orElse ["recipient"] .actor Recipient.read
    let components ← orElse ["components"] [] (list Component.read)
    return .heal formula resource recipient components
  | "consumption" => do
    let restores ← orElse ["restores"] [] (list Restore.read)
    let components ← orElse ["components"] [] (list Component.read)
    let recipient ← orElse ["recipient"] .actor Recipient.read
    return .consumption restores components recipient
  | "setFlag" => do
    let key ← need "key" text
    let value ← orElse ["value"] "" text
    return .setFlag key value
  | "variable" => do
    let label ← orElse ["label"] "" text
    let default ← maybe "default" real
    let min ← maybe "min" real
    let max ← maybe "max" real
    return .variable label default min max
  | "travel" => return .travel (← orElse ["modifier"] "" text)
  | "selectOperation" => do
    let operations ← orElse ["operations"] [] (list text)
    let title ← maybe "title" text
    return .selectOperation operations title
  | "selectOption" => do
    let options ← orElse ["options"] [] (list OptionEntry.read)
    let title ← maybe "title" text
    return .selectOption options title
  | "message" => return .message (← orElse ["text"] "" text)
  | _ => failure

def read : Reader OperationKind := record do payload (← need "type" text)

def optionalReal (x : Option Binary64) : Json := .ofOption .ofReal x

def optionalText (s : Option String) : Json := .ofOption .str s

def optionalSpec (s : Option TestSpec) : Json := .ofOption TestSpec.toJson s

def fields : OperationKind → List (String × Json)
  | .attack damages applyDamage =>
    [("damages", .arr (damages.map Damage.toJson)), ("applyDamage", .bool applyDamage)]
  | .check name override difficulty =>
    [("check", .str name), ("rollOverride", .ofOption RollOverride.toJson override),
     ("difficulty", optionalText difficulty)]
  | .test t =>
    [("friendly", optionalSpec t.friendly), ("neutral", optionalSpec t.neutral),
     ("hostile", optionalSpec t.hostile), ("secret", optionalSpec t.secret),
     ("default", optionalSpec t.default)]
  | .condition conditions proceedAnyway =>
    [("conditions", .arr (conditions.map Predicate.toJson)),
     ("proceedAnyway", .bool proceedAnyway)]
  | .target appliesTo => [("appliesTo", .str appliesTo.name)]
  | .use source => [("source", source.toJson)]
  | .createResource name maximum negativeAllowed reset =>
    [("resourceName", .str name), ("maximum", .str maximum),
     ("negativeAllowed", .bool negativeAllowed), ("reset", reset.toJson)]
  | .consumeResource resource amount => [("resource", .str resource), ("amount", .str amount)]
  | .heal formula resource recipient components =>
    [("formula", .str formula), ("resource", optionalText resource),
     ("recipient", .str recipient.name), ("components", .arr (components.map Component.toJson))]
  | .consumption restores components recipient =>
    [("restores", .arr (restores.map Restore.toJson)),
     ("components", .arr (components.map Component.toJson)), ("recipient", .str recipient.name)]
  | .setFlag key value => [("key", .str key), ("value", .str value)]
  | .variable label default min max =>
    [("label", .str label), ("default", optionalReal default), ("min", optionalReal min),
     ("max", optionalReal max)]
  | .travel modifier => [("modifier", .str modifier)]
  | .selectOperation operations title =>
    [("operations", .names operations), ("title", optionalText title)]
  | .selectOption options title =>
    [("options", .arr (options.map OptionEntry.toJson)), ("title", optionalText title)]
  | .message text => [("text", .str text)]

end OperationKind

namespace Operation

-- The fields of the kind stand beside those that all operations have.
def read : Reader Operation := sharedRecord do
  let id ← need "id" text
  let name ← orElse ["name"] "" text
  let priority ← orElse ["priority"] 0 int32
  let costs ← orElse ["costs"] {} Costs.read
  let performance ← orElse ["performance"] {} Performance.read
  let immediate ← orElse ["executeImmediately"] true flag
  let toggles ← orElse ["toggleActiveEffects"] {} ToggleEffects.read
  let kind ← OperationKind.payload (← need "type" (tag OperationKind.tags))
  return { id, name, priority, costs, performance, immediate, toggles, kind }

def toJson (op : Operation) : Json := .record ([
  ("id", .str op.id),
  ("name", .str op.name),
  ("priority", .int op.priority),
  ("costs", op.costs.toJson),
  ("performance", op.performance.toJson),
  ("executeImmediately", .bool op.immediate),
  ("toggleActiveEffects", op.toggles.toJson),
  ("type", .str op.kind.name)] ++ op.kind.fields)

end Operation

end Tabletop
