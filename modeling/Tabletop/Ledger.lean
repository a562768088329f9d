import Tabletop.Binary64.Text
import Tabletop.Dict

namespace Tabletop

-- The event that refills a resource.
inductive ResetTrigger where
  | never
  | turn
  | shortRest
  | longRest
  | combatEnd
deriving DecidableEq, Inhabited

namespace ResetTrigger

def all : List ResetTrigger := [.never, .turn, .shortRest, .longRest, .combatEnd]

def name : ResetTrigger → String
  | .never => "never"
  | .turn => "turn"
  | .shortRest => "shortRest"
  | .longRest => "longRest"
  | .combatEnd => "combatEnd"

-- The name on the command line, where a hyphen may part the words.
def hyphenated : ResetTrigger → String
  | .shortRest => "short-rest"
  | .longRest => "long-rest"
  | .combatEnd => "combat-end"
  | t => t.name

def parse (text : String) : Except String ResetTrigger :=
  match all.find? fun t => t.name == text || t.hyphenated == text with
  | some t => .ok t
  | none => .error ("unknown reset trigger '" ++ text ++ "'")

end ResetTrigger

-- A pool that an activity owns.
structure Resource where
  id : String
  name : String
  maximumFormula : String
  maximum : Binary64
  value : Binary64
  negativeAllowed : Bool
  reset : ResetTrigger
deriving DecidableEq

-- The pools by the ids of the operations that made them.
abbrev Ledger := Dict Resource

inductive LedgerFault where
  | missing (id : String)
  | negativeAmount (amount : Binary64)
  | insufficient (resource : String) (needed available : Binary64)
deriving DecidableEq

def LedgerFault.message : LedgerFault → String
  | .missing id => "resource '" ++ id ++ "' has not been created"
  | .negativeAmount a => "cannot consume a negative amount (" ++ a.plainText ++ ")"
  | .insufficient r needed available =>
    "needs " ++ needed.plainText ++ " " ++ r ++ ", only " ++ available.plainText ++ " left"

namespace Ledger

-- A pool that exists stays as it is.
def create (ledger : Ledger) (resource : Resource) : Bool × Ledger :=
  if Dict.contains ledger resource.id then (false, ledger)
  else (true, Dict.insert ledger resource.id resource)

-- Takes an amount and tells what is left.
def consume (ledger : Ledger) (id : String) (amount : Binary64) :
    Except LedgerFault (Binary64 × Ledger) :=
  match Dict.find? ledger id with
  | none => .error (.missing id)
  | some r =>
    if amount < 0 then .error (.negativeAmount amount)
    else if !r.negativeAllowed && r.value < amount then
      .error (.insufficient r.name amount r.value)
    else
      let left := r.value - amount
      .ok (left, Dict.insert ledger id { r with value := left })

def isDue (trigger : ResetTrigger) (r : Resource) : Bool :=
  trigger != .never && r.reset == trigger

-- Fills the pools whose trigger this is and lists their ids.
def reset (ledger : Ledger) (trigger : ResetTrigger) : List String × Ledger :=
  ((Dict.values ledger).filter (isDue trigger) |>.map Resource.id,
    Dict.mapValues (fun _ r => if isDue trigger r then { r with value := r.maximum } else r) ledger)

end Ledger

end Tabletop
