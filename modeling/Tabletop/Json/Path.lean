import Tabletop.Json.Basic

-- Dotted paths into nested objects.
namespace Tabletop

-- The segments of a dotted path. Segments may be empty; a path has at least one.
def Path.segments (path : String) : List String :=
  (Text.splitOn '.' path.toList).map String.ofList

namespace Json

def follow? (root : Json) : List String → Option Json
  | [] => some root
  | key :: rest =>
    match root.member? key with
    | some child => follow? child rest
    | none => none

-- The empty path is the root itself.
def get? (root : Json) (path : String) : Option Json :=
  if path.isEmpty then some root else root.follow? (Path.segments path)

-- The members of an object; anything else gives way to an empty object.
def membersOrNone : Json → List (String × Json)
  | .obj members => members
  | _ => []

-- Objects are made on the way where there is none.
def write (root : Json) (value : Json) : List String → Json
  | [] => value
  | key :: rest =>
    let members := root.membersOrNone
    let child := (Entries.find? key members).getD (.obj [])
    .obj (Entries.insert key (write child value rest) members)

def set (root : Json) (path : String) (value : Json) : Json :=
  root.write value (Path.segments path)

end Json

end Tabletop
