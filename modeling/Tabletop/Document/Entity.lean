import Tabletop.Document.Shape
import Tabletop.Records
import Tabletop.World

namespace Tabletop

open Document

namespace Disposition

def all : List Disposition := [.friendly, .neutral, .hostile, .secret]

def name : Disposition → String
  | .friendly => "friendly"
  | .neutral => "neutral"
  | .hostile => "hostile"
  | .secret => "secret"

def read : Reader Disposition := oneOf all name

def toJson (d : Disposition) : Json := .str d.name

end Disposition

namespace Snapshot

def read : Reader Snapshot := record do
  let id ← need "id" text
  let name ← need "name" text
  let disposition ← need "disposition" Disposition.read
  let rollData ← need "rollData" (dict value)
  return { id, name, disposition, rollData }

def toJson (s : Snapshot) : Json := .record [
  ("id", .str s.id),
  ("name", .str s.name),
  ("disposition", s.disposition.toJson),
  ("rollData", .ofDict s.rollData)]

end Snapshot

namespace Records

-- The target that the walk is bound to at the moment.
def target? (r : Records) : Option Snapshot := (r.find? targetKey).bind Snapshot.read

def bind (r : Records) : Option Snapshot → Records
  | some s => r.insert targetKey s.toJson
  | none => r.erase targetKey

end Records

namespace Item

def read : Reader Item := record do
  let id ← need "id" text
  let name ← need "name" text
  let slot ← maybe "slot" text
  let quantity ← orElse ["quantity"] 1 nat32
  let consumable ← orElse ["consumable"] false flag
  return { id, name, slot, quantity, consumable }

def toJson (i : Item) : Json := .record [
  ("id", .str i.id),
  ("name", .str i.name),
  ("slot", .ofOption .str i.slot),
  ("quantity", .ofNat i.quantity),
  ("consumable", .bool i.consumable)]

end Item

namespace Entity

def read : Reader Entity := record do
  let id ← need "id" text
  let name ← need "name" text
  let disposition ← orElse ["disposition"] .neutral Disposition.read
  let system ← orElse ["system"] .null value
  let flags ← orElse ["flags"] {} (dict value)
  let statuses ← orElse ["statuses"] Dict.empty names
  let items ← orElse ["items"] [] (list Item.read)
  return { id, name, disposition, system, flags, statuses, items }

def toJson (e : Entity) : Json := .record [
  ("id", .str e.id),
  ("name", .str e.name),
  ("disposition", e.disposition.toJson),
  ("system", e.system),
  ("flags", .ofDict e.flags),
  ("statuses", .names e.statuses.toList),
  ("items", .arr (e.items.map Item.toJson))]

end Entity

namespace Change

def read : Reader Change := record do
  match ← need "op" text with
  | "set" => return .set (← need "path" text) (← need "value" value)
  | "setFlag" => return .setFlag (← need "key" text) (← need "value" value)
  | "itemQuantity" => return .itemQuantity (← need "item" text) (← need "quantity" nat32)
  | "toggleStatus" => return .toggleStatus (← need "status" text)
  | _ => failure

end Change

end Tabletop
