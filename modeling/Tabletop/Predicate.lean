import Tabletop.Json.Text

namespace Tabletop

-- Where a predicate takes its actual value from.
inductive Source where
  | rollData
  | system
  | activity
  | operation
  | flag
deriving DecidableEq, Inhabited

namespace Source

def all : List Source := [.rollData, .system, .activity, .operation, .flag]

def name : Source → String
  | .rollData => "rollData"
  | .system => "system"
  | .activity => "activity"
  | .operation => "operation"
  | .flag => "flag"

def label : Source → String
  | .rollData => "Roll data"
  | .system => "System data"
  | .activity => "Activity data"
  | .operation => "Operation value"
  | .flag => "Flag"

end Source

inductive Comparison where
  | equal
  | unequal
  | less
  | greater
  | atMost
  | atLeast
  | has
  | hasNot
deriving DecidableEq, Inhabited

namespace Comparison

def all : List Comparison :=
  [.equal, .unequal, .less, .greater, .atMost, .atLeast, .has, .hasNot]

def symbol : Comparison → String
  | .equal => "=="
  | .unequal => "!="
  | .less => "<"
  | .greater => ">"
  | .atMost => "<="
  | .atLeast => ">="
  | .has => "has"
  | .hasNot => "!has"

end Comparison

-- A test of one value against a literal.
structure Predicate where
  source : Source
  key : String
  comparison : Comparison
  value : String
  priority : Int
deriving DecidableEq, Inhabited

def Predicate.describe (p : Predicate) : String :=
  p.key ++ " " ++ p.comparison.symbol ++ " " ++ p.value

namespace Json

-- The text of a value: texts are bare, all else is written as a document.
def render : Json → String
  | .str s => s
  | v => v.compact

-- The number in a comparison. Booleans are none here.
def comparand? : Json → Option Binary64
  | .bool _ => none
  | v => v.toNumber?

-- Numbers and numeric texts are equal by value, and a text equals what is written like it; null
-- equals null only.
def loosely (a b : Json) : Bool :=
  a.same b ||
    match a.comparand?, b.comparand? with
    | some x, some y => x.same y
    | _, _ =>
      match a, b with
      | .str x, .str y => x == y
      | .str x, other => !other.isNull && x == other.render
      | other, .str x => !other.isNull && x == other.render
      | _, _ => false

-- Numbers and numeric texts by value, other texts by their characters; all else has no order.
def order? (a b : Json) : Option Ordering :=
  match a.comparand?, b.comparand? with
  | some x, some y => x.compare? y
  | _, _ =>
    match a, b with
    | .str x, .str y => some (compare x y)
    | _, _ => none

-- Items of an array, parts of a text, keys of an object.
def holds (whole part : Json) : Bool :=
  match whole with
  | .arr items => items.any fun item => item.loosely part
  | .str s => Text.contains part.render.toList s.toList
  | .obj members => (Entries.find? part.render members).isSome
  | _ => false

def compareBy (comparison : Comparison) (actual expected : Json) : Bool :=
  match comparison with
  | .equal => actual.loosely expected
  | .unequal => !actual.loosely expected
  | .less => actual.order? expected == some .lt
  | .greater => actual.order? expected == some .gt
  | .atMost => actual.order? expected == some .lt || actual.order? expected == some .eq
  | .atLeast => actual.order? expected == some .gt || actual.order? expected == some .eq
  | .has => actual.holds expected
  | .hasNot => !actual.holds expected

-- A pair of like quotes around a text is dropped.
def unquote (s : List Char) : List Char :=
  match s with
  | '"' :: rest => if rest.getLast? = some '"' then rest.dropLast else s
  | '\'' :: rest => if rest.getLast? = some '\'' then rest.dropLast else s
  | _ => s

-- A document value if the text is one, else the text itself.
def ofLiteral (raw : String) : Json :=
  let trimmed := Text.trim raw
  match read? trimmed with
  | some value => value.settle
  | none => .str (String.ofList (unquote trimmed.toList))

end Json

end Tabletop
