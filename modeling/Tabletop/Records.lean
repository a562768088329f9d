import Tabletop.Entity

namespace Tabletop

-- What the operations of an activity have recorded: an object per operation, with the last value
-- under "value", and the bound target under a key of its own.
abbrev Records := Dict Json

namespace Records

-- No operation may have this id.
def targetKey : String := "target"

-- The last value of an operation; null counts as none.
def value? (r : Records) (operation : String) : Option Json :=
  match (r.find? operation).bind (Json.member? "value") with
  | some .null => none
  | found => found

-- The members of a record. A record that is no object is taken as a value.
def fields (r : Records) (operation : String) : List (String × Json) :=
  match r.find? operation with
  | none => []
  | some (.obj members) => members
  | some value => [("value", value)]

def setValue (r : Records) (operation : String) (value : Json) : Records :=
  r.insert operation (.obj (Entries.insert "value" value (r.fields operation)))

-- New fields replace old ones of the same name.
def merge (r : Records) (operation : String) (fields : List (String × Json)) : Records :=
  r.insert operation
    (.obj (fields.foldl (fun members (k, v) => Entries.insert k v members) (r.fields operation)))

def addAll (r : Records) (updates : List (String × Json)) : Records :=
  updates.foldl (fun r (k, v) => r.insert k v) r

end Records

end Tabletop
