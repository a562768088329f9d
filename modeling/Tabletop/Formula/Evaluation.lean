import Tabletop.Dice
import Tabletop.Failure
import Tabletop.Formula.Parser
import Tabletop.Json.Text
import Tabletop.RollData

namespace Tabletop

-- The value of a formula, and the formula as it was resolved: paths as numbers, dice with the
-- faces they showed.
structure Evaluation where
  total : Binary64
  formula : String
deriving DecidableEq

namespace Evaluation

def zero : Evaluation := ⟨0, "0"⟩

end Evaluation

namespace DiceTerm

def kept (term : DiceTerm) (faces : List Nat) : List Nat :=
  match term.keep with
  | none => faces
  | some (.highest n) => (faces.mergeSort (fun a b => b ≤ a)).take n
  | some (.lowest n) => (faces.mergeSort (fun a b => a ≤ b)).take n

-- The term and the faces in the order of the rolls.
def display (term : DiceTerm) (faces : List Nat) : String :=
  let keep := match term.keep with
    | none => ""
    | some (.highest n) => "kh" ++ toString n
    | some (.lowest n) => "kl" ++ toString n
  toString term.count ++ "d" ++ toString term.faces ++ keep ++
    "[" ++ Text.commaList (faces.map toString) ++ "]"

def roll (term : DiceTerm) (dice : Dice) : Evaluation × Dice :=
  let (faces, dice) := dice.rollMany term.faces term.count
  (⟨Binary64.ofNat ((term.kept faces).foldl (· + ·) 0), term.display faces⟩, dice)

end DiceTerm

namespace Formula

inductive Undefined where
  | unknownPath (path : String)
  | notNumeric (path : String) (value : Json)
  | divisionByZero
  | oneArgument (builtin : Builtin)

def Undefined.message : Undefined → String
  | .unknownPath p => "unknown data path '@" ++ p ++ "'"
  | .notNumeric p v => "'@" ++ p ++ "' is not numeric (" ++ v.compact ++ ")"
  | .divisionByZero => "division by zero"
  | .oneArgument f => f.name ++ "() takes exactly one argument"

def applyOp (op : BinaryOp) (l r : Binary64) : Except Undefined Binary64 :=
  match op with
  | .add => .ok (l + r)
  | .sub => .ok (l - r)
  | .mul => .ok (l * r)
  | .div => if r.same 0 then .error .divisionByZero else .ok (l / r)
  | .rem => if r.same 0 then .error .divisionByZero else .ok (l % r)

def applyBuiltin (builtin : Builtin) (args : List Binary64) : Except Undefined Binary64 :=
  let single (f : Binary64 → Binary64) : Except Undefined Binary64 :=
    match args with
    | [x] => .ok (f x)
    | _ => .error (.oneArgument builtin)
  match builtin with
  | .floor => single Binary64.floor
  | .ceil => single Binary64.ceil
  | .round => single Binary64.round
  | .abs => single Binary64.abs
  | .min => .ok (args.foldl Binary64.min (.infinite false))
  | .max => .ok (args.foldl Binary64.max (.infinite true))

def lookUp (data : RollData) (path : String) : Except Undefined Binary64 :=
  match data.find? path with
  | none => .error (.unknownPath path)
  | some value =>
    match value.toNumber? with
    | some x => .ok x
    | none => .error (.notNumeric path value)

def isBinary : Formula → Bool
  | .binary .. => true
  | _ => false

-- An operand is shown in parentheses where the text would be read otherwise.
def needsParens (parent : BinaryOp) (right : Bool) : Formula → Bool
  | .binary op _ _ =>
    op.precedence < parent.precedence || (right && op.precedence == parent.precedence)
  | _ => false

def parens (wrap : Bool) (text : String) : String := if wrap then "(" ++ text ++ ")" else text

-- Dice stay rolled when a later part of the formula fails.
abbrev Rolling := ExceptT Undefined (StateM Dice)

mutual

def eval (data : RollData) : Formula → Rolling Evaluation
  | .number x => pure ⟨x, x.format⟩
  | .dice term => fun dice =>
    let (result, dice) := term.roll dice
    (.ok result, dice)
  | .path name => do
    let x ← lookUp data name
    return ⟨x, x.format⟩
  | .neg inner => do
    let v ← eval data inner
    return ⟨-v.total, "-" ++ parens inner.isBinary v.formula⟩
  | .binary op lhs rhs => do
    let l ← eval data lhs
    let r ← eval data rhs
    let total ← applyOp op l.total r.total
    return ⟨total, parens (needsParens op false lhs) l.formula ++ " " ++
      String.singleton op.symbol ++ " " ++ parens (needsParens op true rhs) r.formula⟩
  | .call builtin args => do
    let values ← evalAll data args
    let total ← applyBuiltin builtin (values.map Evaluation.total)
    return ⟨total, builtin.name ++ "(" ++ Text.commaList (values.map Evaluation.formula) ++ ")"⟩

def evalAll (data : RollData) : List Formula → Rolling (List Evaluation)
  | [] => pure []
  | arg :: rest => do
    let v ← eval data arg
    let vs ← evalAll data rest
    return v :: vs

end

-- A blank text is zero.
def evaluate (text : String) (data : RollData) : ExceptT Failure (StateM Dice) Evaluation :=
  if Text.allBlank text then pure Evaluation.zero
  else match parse text with
    | .error m => throw (.misread text m.position m.fault.message)
    | .ok formula => fun dice =>
      match (eval data formula).run dice with
      | (.ok result, dice) => (.ok result, dice)
      | (.error e, dice) => (.error (.evaluation text e.message), dice)

end Formula

end Tabletop
