import Tabletop.Formula.Basic
import Tabletop.Binary64.Text

-- Reading of formula texts. The grammar, from the loosest level to the tightest:
--   sum  = term { ("+" | "-") term }
--   term = sign { ("*" | "/" | "%") sign }
--   sign = "-" sign | ["+"] atom
--   atom = number | [count] "d" faces ["kh" n | "kl" n] | "@" path
--        | function "(" sum { "," sum } ")" | "(" sum ")"
-- Once the choice of a form is certain, a fault in it is final and no other form is tried.
namespace Tabletop.Formula

open Tabletop.Text

-- What would have been accepted at the place of a fault.
inductive Expected where
  | atom
  | keepCount
  | dataPath
  | knownFunction
  | someFace
  | fewerDice
  | fewerFaces
  | closing
deriving DecidableEq, Repr

-- The answer of a rule. `missed` leaves room for another form, `stuck` does not; both tell where
-- the rule stopped and what was expected, the innermost expectation first.
inductive Reply (α : Type) where
  | done (value : α) (rest : List Char)
  | missed (rest : List Char) (expected : List Expected)
  | stuck (rest : List Char) (expected : List Expected)

namespace Reply

variable {α β : Type}

def andThen (r : Reply α) (f : α → List Char → Reply β) : Reply β :=
  match r with
  | .done a rest => f a rest
  | .missed rest e => .missed rest e
  | .stuck rest e => .stuck rest e

def map (f : α → β) (r : Reply α) : Reply β := r.andThen fun a rest => .done (f a) rest

-- From here on there is no other form.
def commit : Reply α → Reply α
  | .missed rest e => .stuck rest e
  | r => r

def within (expected : Expected) : Reply α → Reply α
  | .done a rest => .done a rest
  | .missed rest e => .missed rest (e ++ [expected])
  | .stuck rest e => .stuck rest (e ++ [expected])

def orElse (r : Reply α) (other : Unit → Reply α) : Reply α :=
  match r with
  | .missed _ _ => other ()
  | r => r

end Reply

def isGap (c : Char) : Bool := c = ' ' || c = '\t' || c = '\r' || c = '\n'

def skipGaps (s : List Char) : List Char := s.dropWhile isGap

-- A run of digits that fits into 32 bits.
def natural? (s : List Char) : Option (Nat × List Char) :=
  let (digits, rest) := Binary64.digitRun s
  if digits.isEmpty || maxNatural < ofDigits digits then none else some (ofDigits digits, rest)

def keep (s : List Char) : Reply (Option Keep) :=
  let counted (make : Nat → Keep) (rest : List Char) : Reply (Option Keep) :=
    match natural? rest with
    | some (n, rest) => .done (some (make n)) rest
    | none => .stuck (rest.dropWhile isDigit) [.keepCount]
  match s with
  | 'k' :: 'h' :: rest => counted .highest rest
  | 'k' :: 'l' :: rest => counted .lowest rest
  | rest => .done none rest

-- A throw without a count is one die.
def diceForm (s : List Char) : Reply Formula :=
  let (count, rest) := (natural? s).getD (1, s)
  match rest with
  | c :: more =>
    if c = 'd' || c = 'D' then
      match natural? more with
      | some (faces, more) =>
        (keep more).andThen fun keep rest =>
          if faces = 0 then .stuck rest [.someFace]
          else if maxDice < count then .stuck rest [.fewerDice]
          else if maxFaces < faces then .stuck rest [.fewerFaces]
          else .done (.dice ⟨count, faces, keep⟩) rest
      | none => .missed s []
    else .missed s []
  | [] => .missed s []

def numberForm (s : List Char) : Reply Formula :=
  let (whole, rest) := Binary64.digitRun s
  if whole.isEmpty then .missed s []
  else match rest with
    | '.' :: more =>
      let (fraction, after) := Binary64.digitRun more
      if fraction.isEmpty then .done (.number (Binary64.ofDecimal false (ofDigits whole) 0)) rest
      else
        let mantissa := ofDigits (whole ++ fraction)
        .done (.number (Binary64.ofDecimal false mantissa (-(fraction.length : Int)))) after
    | _ => .done (.number (Binary64.ofDecimal false (ofDigits whole) 0)) rest

def isPathChar (c : Char) : Bool := isLetter c || isDigit c || c = '_' || c = '.'

-- Dots at the end of a path are dropped.
def pathForm : List Char → Reply Formula
  | '@' :: rest =>
    let name := rest.takeWhile isPathChar
    if name.isEmpty then .stuck rest [.dataPath]
    else
      let kept := (name.reverse.dropWhile (· = '.')).reverse
      .done (.path (String.ofList kept)) (rest.dropWhile isPathChar)
  | s => .missed s []

def termOp? : Char → Option BinaryOp
  | '*' => some .mul
  | '/' => some .div
  | '%' => some .rem
  | _ => none

def sumOp? : Char → Option BinaryOp
  | '+' => some .add
  | '-' => some .sub
  | _ => none

mutual

-- Every call takes a step off the count; `parse` starts with enough for every text.
def sum : Nat → List Char → Reply Formula
  | 0, s => .missed s []
  | n + 1, s => (term n s).andThen (sumRest n)

-- The operators are left-associative.
def sumRest : Nat → Formula → List Char → Reply Formula
  | 0, _, s => .missed s []
  | n + 1, lhs, s =>
    match skipGaps s with
    | [] => .done lhs []
    | c :: rest =>
      match sumOp? c with
      | some op => (term n rest).commit.andThen fun rhs => sumRest n (.binary op lhs rhs)
      | none => .done lhs (c :: rest)

def term : Nat → List Char → Reply Formula
  | 0, s => .missed s []
  | n + 1, s => (sign n s).andThen (termRest n)

def termRest : Nat → Formula → List Char → Reply Formula
  | 0, _, s => .missed s []
  | n + 1, lhs, s =>
    match skipGaps s with
    | [] => .done lhs []
    | c :: rest =>
      match termOp? c with
      | some op => (sign n rest).commit.andThen fun rhs => termRest n (.binary op lhs rhs)
      | none => .done lhs (c :: rest)

def sign : Nat → List Char → Reply Formula
  | 0, s => .missed s []
  | n + 1, s =>
    match skipGaps s with
    | '-' :: rest => (sign n rest).commit.map .neg
    | '+' :: rest => atom n rest
    | rest => atom n rest

def atom : Nat → List Char → Reply Formula
  | 0, s => .missed s []
  | n + 1, s =>
    let s := skipGaps s
    ((((diceForm s).orElse fun _ => numberForm s).orElse fun _ => pathForm s).orElse fun _ =>
      callForm n s).orElse (fun _ => groupForm n s)
    |>.within .atom

def callForm : Nat → List Char → Reply Formula
  | 0, s => .missed s []
  | n + 1, s =>
    let name := s.takeWhile isLetter
    let rest := s.dropWhile isLetter
    if name.isEmpty then .missed s []
    else match Builtin.ofName? (String.ofList name) with
      | none => .stuck rest [.knownFunction]
      | some builtin =>
        match skipGaps rest with
        | '(' :: rest =>
          (sum n rest).andThen fun first rest =>
            (arguments n [first] rest).andThen fun args rest =>
              match skipGaps rest with
              | ')' :: rest => .done (.call builtin args) rest
              | rest => .stuck rest [.closing]
        | rest => .missed rest []

-- A comma that no argument follows is left where it stands.
def arguments : Nat → List Formula → List Char → Reply (List Formula)
  | 0, _, s => .missed s []
  | n + 1, args, s =>
    match skipGaps s with
    | ',' :: rest =>
      match sum n rest with
      | .done arg rest => arguments n (args ++ [arg]) rest
      | .missed _ _ => .done args s
      | .stuck rest e => .stuck rest e
    | _ => .done args s

def groupForm : Nat → List Char → Reply Formula
  | 0, s => .missed s []
  | n + 1, s =>
    match s with
    | '(' :: rest =>
      (sum n rest).andThen fun inner rest =>
        match skipGaps rest with
        | ')' :: rest => .done inner rest
        | rest => .stuck rest [.closing]
    | _ => .missed s []

end

inductive Fault where
  | blank
  | trailing (c : Char)
  | unmet (committed : Bool) (expected : List Expected)
deriving DecidableEq, Repr

-- A fault and its place in octets from the start of the text.
structure Misread where
  position : Nat
  fault : Fault
deriving DecidableEq, Repr

-- Between two characters of a text lie at most seven calls.
def steps (s : List Char) : Nat := 8 * s.length + 8

-- White space of any kind may follow the formula.
def parse (text : String) : Except Misread Formula :=
  let s := text.toList
  let place (rest : List Char) : Nat := octets s - octets rest
  if allBlank text then .error ⟨0, .blank⟩
  else match sum (steps s) s with
    | .missed rest e => .error ⟨place rest, .unmet false e⟩
    | .stuck rest e => .error ⟨place rest, .unmet true e⟩
    | .done formula rest =>
      match trimLeft rest with
      | [] => .ok formula
      | c :: more => .error ⟨place (c :: more), .trailing c⟩

def Expected.text : Expected → String
  | .atom => "Expected(Description(\"a number, dice, @path, function, or '('\"))"
  | .keepCount => "Expected(Description(\"number of dice to keep\"))"
  | .dataPath => "Expected(Description(\"data path after '@'\"))"
  | .knownFunction =>
    "Expected(Description(\"a known function (floor, ceil, round, abs, min, max)\"))"
  | .someFace => "Expected(Description(\"dice with at least one face\"))"
  | .fewerDice => "Expected(Description(\"at most 1000 dice per term\"))"
  | .fewerFaces => "Expected(Description(\"at most 1000000 faces per die\"))"
  | .closing => "Expected(CharLiteral(')'))"

def Fault.message : Fault → String
  | .blank => "empty formula"
  | .trailing c => "unexpected '" ++ String.singleton c ++ "'"
  | .unmet committed expected =>
    (if committed then "Parsing Failure" else "Parsing Error") ++
      ": ContextError \x7b context: [" ++ commaList (expected.map Expected.text) ++
      "], cause: None \x7d"

end Tabletop.Formula
