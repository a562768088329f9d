import Tabletop.Entity

namespace Tabletop

-- The entities by their ids.
abbrev World := Dict Entity

-- How the world is kept: what is recomputed after every update of an entity, and which entities
-- cannot be read or updated.
structure Keeper where
  derive : Entity → Entity := id
  unreadable : String → Option Failure := fun _ => none
  locked : String → Option Failure := fun _ => none

instance : Inhabited Keeper := ⟨{}⟩

namespace World

-- Later entities with an id replace earlier ones.
def ofList (entities : List Entity) : World := Dict.ofList (entities.map fun e => (e.id, e))

def add (w : World) (e : Entity) : World := Dict.insert w e.id e

def read (w : World) (keeper : Keeper) (id : String) : Except Failure Entity :=
  match keeper.unreadable id with
  | some failure => .error failure
  | none =>
    match Dict.find? w id with
    | some e => .ok e
    | none => .error (.unknownEntity id)

-- All changes are made, or the world stays as it is.
def update (w : World) (keeper : Keeper) (id : String) (changes : List Change) :
    Except Failure World :=
  match keeper.locked id with
  | some failure => .error failure
  | none =>
    match Dict.find? w id with
    | none => .error (.unknownEntity id)
    | some e =>
      match e.applyAll changes with
      | .error failure => .error failure
      | .ok next => .ok (Dict.insert w id (keeper.derive next))

end World

end Tabletop
