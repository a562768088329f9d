import Tabletop.Json.Path

namespace Tabletop

-- Named values that formulas look up: the leaves of document trees under their dotted paths.
abbrev RollData := Dict Json

namespace RollData

def join (base key : String) : String :=
  if base.isEmpty then key else base ++ "." ++ key

mutual

-- The leaves of a tree, in order. Arrays are leaves, and an object without members has none. A
-- leaf at the root has no path.
def leaves (base : String) : Json → List (String × Json)
  | .obj members => memberLeaves base members
  | leaf => if base.isEmpty then [] else [(base, leaf)]

def memberLeaves (base : String) : List (String × Json) → List (String × Json)
  | [] => []
  | (key, child) :: rest => leaves (join base key) child ++ memberLeaves base rest

end

def insertAll (data : RollData) (pairs : List (String × Json)) : RollData :=
  pairs.foldl (fun d (k, v) => d.insert k v) data

-- The leaves of `tree` under `base`, over what is there.
def extend (data : RollData) (base : String) (tree : Json) : RollData :=
  data.insertAll (leaves base tree)

def ofTree (tree : Json) : RollData := extend Dict.empty "" tree

-- Every entry of `other` goes under `base`, which may be empty.
def merge (data : RollData) (base : String) (other : RollData) : RollData :=
  data.insertAll (other.entries.map fun (k, v) => (base ++ "." ++ k, v))

def number? (data : RollData) (path : String) : Option Binary64 :=
  (data.find? path).bind Json.toNumber?

end RollData

end Tabletop
