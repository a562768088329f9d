import Tabletop.RollData
import Tabletop.Failure

namespace Tabletop

-- How somebody stands towards the side of the acting entity.
inductive Disposition where
  | friendly
  | neutral
  | hostile
  | secret
deriving DecidableEq, Inhabited

structure Item where
  id : String
  name : String
  slot : Option String
  quantity : Nat
  consumable : Bool
deriving DecidableEq, Inhabited

-- What is kept of an entity that a fork is bound to.
structure Snapshot where
  id : String
  name : String
  disposition : Disposition
  rollData : RollData

-- A creature or thing of the world.
structure Entity where
  id : String
  name : String
  disposition : Disposition := .neutral
  system : Json := .obj []
  flags : Dict Json := {}
  statuses : Names := Dict.empty
  items : List Item := []
deriving Inhabited

-- A single alteration of an entity.
inductive Change where
  | set (path : String) (value : Json)
  | setFlag (key : String) (value : Json)
  | itemQuantity (item : String) (quantity : Nat)
  | toggleStatus (status : String)

namespace Entity

def get? (e : Entity) (path : String) : Option Json := e.system.get? path

def number? (e : Entity) (path : String) : Option Binary64 := (e.get? path).bind Json.toNumber?

-- The leaves of the system data, and those of the flags under `flags`.
def rollData (e : Entity) : RollData :=
  (RollData.ofTree e.system).extend "flags" (Json.ofDict e.flags)

def snapshot (e : Entity) : Snapshot := ⟨e.id, e.name, e.disposition, e.rollData⟩

-- An item is known by its id, or else by its name.
def item? (e : Entity) (reference : String) : Option Item :=
  (e.items.find? fun i => i.id == reference) <|> (e.items.find? fun i => i.name == reference)

def itemsIn (e : Entity) (slot : String) : List Item :=
  e.items.filter fun i => i.slot == some slot

-- Sets the quantity of the first item with this id.
def setQuantity (id : String) (quantity : Nat) : List Item → Option (List Item)
  | [] => none
  | item :: rest =>
    if item.id = id then some ({ item with quantity } :: rest)
    else (setQuantity id quantity rest).map (item :: ·)

def apply (e : Entity) : Change → Except Failure Entity
  | .set path value => .ok { e with system := e.system.set path value }
  | .setFlag key value => .ok { e with flags := e.flags.insert key value }
  | .itemQuantity item quantity =>
    match setQuantity item quantity e.items with
    | some items => .ok { e with items }
    | none => .error (.other ("'" ++ e.id ++ "' does not own item '" ++ item ++ "'"))
  | .toggleStatus status => .ok { e with statuses := e.statuses.flip status }

def applyAll (e : Entity) (changes : List Change) : Except Failure Entity :=
  changes.foldlM apply e

end Entity

end Tabletop
