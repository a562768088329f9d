import Tabletop.Json.Text

-- How typed values are read from documents. A reader sees documents as they were written, so that
-- it can refuse an object that gives one of its fields twice.
namespace Tabletop.Document

abbrev Reader (α : Type) := Json → Option α

def value : Reader Json := fun j => some j.settle

def text : Reader String
  | .str s => some s
  | _ => none

def flag : Reader Bool
  | .bool b => some b
  | _ => none

def real : Reader Binary64
  | .int n => some (Binary64.ofInt n)
  | .float x => some x
  | _ => none

-- A whole number within bounds. Numbers with a fraction part, even a zero one, are none.
def integer (least greatest : Int) : Reader Int
  | .int n => if least ≤ n && n ≤ greatest then some n else none
  | _ => none

def int32 : Reader Int := integer (-Bits.greatest 31 - 1) (Bits.greatest 31)

def nat32 : Reader Nat := fun j => (integer 0 (Bits.greatest 32) j).map Int.toNat

def nat64 : Reader Nat := fun j => (integer 0 (Bits.greatest 64) j).map Int.toNat

def list (item : Reader α) : Reader (List α)
  | .arr items => items.mapM item
  | _ => none

-- Of several members with one name the last counts.
def dict (item : Reader α) : Reader (Dict α)
  | .obj members =>
    (members.mapM fun (m : String × Json) => (item m.2).map fun a => (m.1, a)).map Dict.ofList
  | _ => none

def names : Reader Names := fun j => (list text j).map Names.ofList

def nullable (item : Reader α) : Reader (Option α)
  | .null => some none
  | j => (item j).map some

/-! Records -/

-- The fields of a record stand under their names in an object, or in order in an array.
inductive Fields where
  | named (members : List (String × Json))
  | placed (items : List Json)

abbrev FieldReader := StateT Fields Option

-- The next field, if it is there. It may go by several names, but only once.
def next? (names : List String) : FieldReader (Option Json) := fun fields =>
  match fields with
  | .named members =>
    match members.filter fun m => names.contains m.1 with
    | [] => some (none, fields)
    | [(_, v)] => some (some v, fields)
    | _ => none
  | .placed [] => some (none, .placed [])
  | .placed (v :: rest) => some (some v, .placed rest)

def need (name : String) (reader : Reader α) : FieldReader α := do
  match ← next? [name] with
  | some v => reader v
  | none => failure

-- A field that may be missing.
def orElse (names : List String) (default : α) (reader : Reader α) : FieldReader α := do
  match ← next? names with
  | some v => reader v
  | none => return default

-- A field that may be null, and may be missing where fields have names.
def optional (name : String) (reader : Reader α) : FieldReader (Option α) := do
  match ← next? [name], ← get with
  | some v, _ => nullable reader v
  | none, .named _ => return none
  | none, .placed _ => failure

-- A field that may be null or missing.
def maybe (name : String) (reader : Reader α) : FieldReader (Option α) :=
  orElse [name] none (nullable reader)

def record (fields : FieldReader α) : Reader α
  | .obj members => (fields (.named members)).map Prod.fst
  | .arr items =>
    match fields (.placed items) with
    | some (a, .placed []) => some a
    | _ => none
  | _ => none

-- A record that shares its object with another one cannot be an array.
def sharedRecord (fields : FieldReader α) : Reader α
  | .obj members => (fields (.named members)).map Prod.fst
  | _ => none

/-! Alternatives -/

-- A case is a bare name, or an object with the name as its only member.
def case? : Json → Option (String × Option Json)
  | .str name => some (name, none)
  | .obj [(name, content)] => some (name, some content)
  | _ => none

def isUnit : Option Json → Bool
  | none => true
  | some j => j.isNull

-- Within an operation an empty object says as little as null.
def saysNothing : Option Json → Bool
  | some (.obj []) => true
  | content => isUnit content

-- One of several cases without content, as `vacant` judges.
def oneOf (cases : List α) (name : α → String) (vacant : Option Json → Bool := isUnit) :
    Reader α := fun j => do
  let (found, content) ← case? j
  if vacant content then cases.find? fun a => name a == found else none

-- A tag within an object is a name, or the number of the case.
def tag (names : List String) : Reader String
  | .str name => if names.contains name then some name else none
  | .int n => if 0 ≤ n then names[n.toNat]? else none
  | _ => none

end Tabletop.Document
