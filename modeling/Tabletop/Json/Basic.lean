import Tabletop.Binary64.Text
import Tabletop.Dict

namespace Tabletop

-- Document values. Whole numbers and binary64 numbers stay apart, because a document shows 3 and
-- 3.0 differently. The members of an object stand in the order of the text it was read from, or
-- ascending once it is settled.
inductive Json where
  | null
  | bool (b : Bool)
  | int (n : Int)
  | float (x : Binary64)
  | str (s : String)
  | arr (items : List Json)
  | obj (members : List (String × Json))

namespace Json

instance : Inhabited Json := ⟨.null⟩

def isNull : Json → Bool
  | .null => true
  | _ => false

-- An object built from members in any order.
def record (members : List (String × Json)) : Json := .obj (Entries.ofList members)

def ofDict (d : Dict Json) : Json := .obj d.entries

def names (items : List String) : Json := .arr (items.map .str)

-- The member of an object; nothing else has members.
def member? (key : String) : Json → Option Json
  | .obj members => Entries.find? key members
  | _ => none

mutual

-- Objects keep the last of several members with one name and list them in ascending order.
def settle : Json → Json
  | .arr items => .arr (settleItems items)
  | .obj members => .obj (settleMembers [] members)
  | other => other

def settleItems : List Json → List Json
  | [] => []
  | item :: rest => settle item :: settleItems rest

def settleMembers (settled : List (String × Json)) : List (String × Json) → List (String × Json)
  | [] => settled
  | (key, value) :: rest => settleMembers (Entries.insert key (settle value) settled) rest

end

mutual

-- Whether every object within lists its members in ascending order.
def Settled : Json → Prop
  | .arr items => SettledItems items
  | .obj members => Entries.Ascending members ∧ SettledMembers members
  | _ => True

def SettledItems : List Json → Prop
  | [] => True
  | item :: rest => item.Settled ∧ SettledItems rest

def SettledMembers : List (String × Json) → Prop
  | [] => True
  | (_, value) :: rest => value.Settled ∧ SettledMembers rest

end

mutual

-- Equality of values: numbers of one kind by their value, objects member by member.
def same : Json → Json → Bool
  | .null, .null => true
  | .bool a, .bool b => a == b
  | .int m, .int n => m == n
  | .float x, .float y => x.same y
  | .str s, .str t => s == t
  | .arr xs, .arr ys => sameItems xs ys
  | .obj ms, .obj ns => sameMembers ms ns
  | _, _ => false

def sameItems : List Json → List Json → Bool
  | [], [] => true
  | x :: xs, y :: ys => same x y && sameItems xs ys
  | _, _ => false

def sameMembers : List (String × Json) → List (String × Json) → Bool
  | [], [] => true
  | (k, x) :: ms, (l, y) :: ns => k == l && same x y && sameMembers ms ns
  | _, _ => false

end

-- A number that shows as a whole number when it is one below 2^53; a document has no form for
-- infinities and NaN.
def ofNumber (x : Binary64) : Json :=
  if x.isWhole && Binary64.less x.abs (Binary64.ofNat (Nat.pow 2 53)) then .int x.toInt
  else if x.isFinite then .float x else .null

-- A number that always shows its fraction.
def ofReal (x : Binary64) : Json := if x.isFinite then .float x else .null

def ofNat (n : Nat) : Json := .int n

def ofOption (encode : α → Json) : Option α → Json
  | none => .null
  | some a => encode a

-- The number that a value stands for: booleans count as 1 and 0, texts are read.
def toNumber? : Json → Option Binary64
  | .int n => some (Binary64.ofInt n)
  | .float x => some x
  | .bool b => some (if b then 1 else 0)
  | .str s => Binary64.ofText? (Text.trim s)
  | _ => none

end Json

end Tabletop
