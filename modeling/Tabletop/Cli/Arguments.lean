import Tabletop.Text.Basic

-- Options and operands on a command line.
namespace Tabletop.Cli

-- Why no command comes of the arguments.
inductive Refusal where
  | help
  | version
  | misuse (message : String)
deriving DecidableEq

-- What an option does: it is a mark, it takes a value of some form, or nothing else counts.
inductive Effect where
  | mark
  | value (accepts : String → Bool)
  | stop (refusal : Refusal)

-- An option goes by a long name and perhaps by a letter. Most options may be given once.
structure Switch where
  name : String
  letter : Option Char := none
  effect : Effect := .mark
  many : Bool := false

-- The options with their values, and the operands, in the order in which they are given.
structure Given where
  options : List (String × String) := []
  operands : List String := []

namespace Given

def has (g : Given) (name : String) : Bool := g.options.any fun o => o.1 == name

def value? (g : Given) (name : String) : Option String := g.options.lookup name

def values (g : Given) (name : String) : List String :=
  (g.options.filter fun o => o.1 == name).map Prod.snd

end Given

def unexpected (argument : String) : Refusal :=
  .misuse ("unexpected argument '" ++ argument ++ "' found")

-- Whether an argument is one or more options. A lone hyphen is an operand.
def isOption (argument : String) : Bool :=
  match argument.toList with
  | '-' :: _ :: _ => true
  | _ => false

-- Which options there are, and how many operands at most.
structure Form where
  switches : List Switch
  operands : Nat

namespace Form

def named? (f : Form) (name : String) : Option Switch :=
  f.switches.find? fun s => s.name == name

def lettered? (f : Form) (letter : Char) : Option Switch :=
  f.switches.find? fun s => s.letter == some letter

def addOption (s : Switch) (value : String) (g : Given) : Except Refusal Given :=
  let accepted := match s.effect with
    | .value accepts => accepts value
    | _ => true
  if !accepted then .error (.misuse ("invalid value '" ++ value ++ "' for '--" ++ s.name ++ "'"))
  else if !s.many && g.has s.name then
    .error (.misuse ("the argument '--" ++ s.name ++ "' cannot be used multiple times"))
  else .ok { g with options := g.options ++ [(s.name, value)] }

def addOperand (f : Form) (operand : String) (g : Given) : Except Refusal Given :=
  if operand.isEmpty || f.operands ≤ g.operands.length then .error (unexpected operand)
  else .ok { g with operands := g.operands ++ [operand] }

-- An option that may still need the next argument for its value.
def applySwitch (s : Switch) (attached : Option String) (g : Given) :
    Except Refusal (Given × Option Switch) :=
  match s.effect, attached with
  | .stop _, some text | .mark, some text => .error (unexpected text)
  | .stop refusal, none => .error refusal
  | .mark, none => (addOption s "" g).map fun g => (g, none)
  | .value _, some text => (addOption s text g).map fun g => (g, none)
  | .value _, none => .ok (g, some s)

-- Letters in one argument; what follows the letter of an option with a value is its value.
def letters (f : Form) (g : Given) : List Char → Except Refusal (Given × Option Switch)
  | [] => .ok (g, none)
  | c :: rest =>
    match f.lettered? c with
    | none => .error (unexpected ("-" ++ c.toString))
    | some s =>
      match s.effect with
      | .value _ =>
        let text := match rest with
          | '=' :: text => text
          | text => text
        applySwitch s (if rest.isEmpty then none else some (String.ofList text)) g
      | _ =>
        match applySwitch s none g with
        | .ok (g, _) => letters f g rest
        | .error refusal => .error refusal

def option (f : Form) (argument : String) (g : Given) : Except Refusal (Given × Option Switch) :=
  match argument.toList with
  | '-' :: '-' :: text =>
    let (name, attached) := match Text.cut '=' text with
      | some (name, value) => (String.ofList name, some (String.ofList value))
      | none => (String.ofList text, none)
    match f.named? name with
    | some s => applySwitch s attached g
    | none => .error (unexpected ("--" ++ name))
  | _ :: text => f.letters g text
  | [] => .error (unexpected argument)

-- Two hyphens alone tell that only operands follow. The first argument may be the value of an
-- option before it.
def scan (f : Form) (g : Given) (awaiting : Option Switch) : List String → Except Refusal Given
  | [] =>
    match awaiting with
    | none => .ok g
    | some s => .error (.misuse ("a value is required for '--" ++ s.name ++ "'"))
  | argument :: rest =>
    match awaiting with
    | some s =>
      if isOption argument then
        .error (.misuse ("a value is required for '--" ++ s.name ++ "'"))
      else
        match addOption s argument g with
        | .ok g => scan f g none rest
        | .error refusal => .error refusal
    | none =>
      if argument = "--" then rest.foldlM (fun g operand => f.addOperand operand g) g
      else if isOption argument then
        match f.option argument g with
        | .ok (g, awaiting) => scan f g awaiting rest
        | .error refusal => .error refusal
      else
        match f.addOperand argument g with
        | .ok g => scan f g none rest
        | .error refusal => .error refusal

def parse (f : Form) (arguments : List String) : Except Refusal Given :=
  f.scan {} none arguments

end Form

end Tabletop.Cli
