import Tabletop.Failure
import Tabletop.Json.Basic

-- References such as #strike in formulas, which give way to recorded values.
namespace Tabletop.Placeholder

open Tabletop.Text

def isWordChar (c : Char) : Bool := isLetter c || isDigit c || c = '_'

-- A name starts with a letter or '_' and goes on with letters, digits and '_'.
def isName (id : String) : Bool :=
  match id.toList with
  | [] => false
  | c :: rest => (isLetter c || c = '_') && rest.all isWordChar

-- A text as characters to keep and references to replace.
inductive Piece where
  | plain (c : Char)
  | reference (id : List Char)
deriving DecidableEq

-- A reference is a '#' and all word characters that follow, possibly none. The first argument
-- holds those read so far of a reference under way.
def scan : Option (List Char) → List Char → List Piece
  | none, [] => []
  | some id, [] => [.reference id]
  | none, c :: rest => if c = '#' then scan (some []) rest else .plain c :: scan none rest
  | some id, c :: rest =>
    if isWordChar c then scan (some (id ++ [c])) rest
    else .reference id :: (if c = '#' then scan (some []) rest else .plain c :: scan none rest)

def pieces (text : String) : List Piece := scan none text.toList

def references (text : String) : List String :=
  (pieces text).filterMap fun
    | .plain _ => none
    | .reference id => some (String.ofList id)

-- The distinct names referred to, in the order of their first occurrence. Malformed ones count.
def ids (text : String) : List String :=
  (references text).foldl (fun seen id => if seen.contains id then seen else seen ++ [id]) []

-- The form of a value inside a formula. Texts go in as they are; null, arrays and objects have
-- none.
def render? : Json → Option String
  | .int n => some (Binary64.ofInt n).format
  | .float x => some x.format
  | .bool b => some (if b then "1" else "0")
  | .str s => some s
  | _ => none

-- What a reference gives way to, if its name is well-formed and has a value with a form.
def resolve? (values : String → Option Json) (id : String) : Option String :=
  if isName id then (values id).bind render? else none

-- Replaces every reference, or names the first one that cannot be replaced. Text that is put in
-- is not read again.
def substitute (text operation : String) (values : String → Option Json) :
    Except Failure String := do
  let parts ← (pieces text).mapM fun
    | .plain c => .ok (String.singleton c)
    | .reference id =>
      match resolve? values (String.ofList id) with
      | some s => .ok s
      | none => .error (.unresolved operation (String.ofList id))
  return String.join parts

end Tabletop.Placeholder
