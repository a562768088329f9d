import Tabletop.Bits
import Tabletop.Cli.Arguments

-- What can be asked of the program.
namespace Tabletop.Cli

structure RunOptions where
  activity : String
  world : String
  actor : Option String
  targets : List String
  -- Whose turn it is in combat.
  combatTurn : Option String
  rules : Option String
  seed : Option Nat
  gameMaster : Bool
  automatic : Bool
  origin : Option String
  -- Where the activity and the world are saved.
  directory : Option String

inductive Command where
  | run (options : RunOptions)
  | validate (activity : String)
  | info (activity : String)
  | reset (directory trigger : String)

namespace Command

def help : Switch := { name := "help", letter := some 'h', effect := .stop .help }

def verbose : Switch := { name := "verbose", letter := some 'v' }

def version : Switch := { name := "version", letter := some 'V', effect := .stop .version }

def isPath (text : String) : Bool := !text.isEmpty

def seedLimit : Nat := Bits.greatest 64

def seed? (text : String) : Option Nat := Text.toNatUpTo? seedLimit text

def text (name : String) (letter : Option Char) : Switch :=
  { name, letter, effect := .value fun _ => true }

def path (name : String) (letter : Option Char) : Switch :=
  { name, letter, effect := .value isPath }

-- Options before the command.
def general : Form := ⟨[help, verbose, version], 0⟩

def forms : List (String × Form) := [
  ("run", ⟨[help, verbose, path "world" (some 'w'), text "actor" (some 'a'),
    { text "target" (some 't') with many := true }, text "combat-turn" none, path "rules" none,
    { name := "seed", effect := .value fun s => (seed? s).isSome }, { name := "gm" },
    { name := "auto" }, text "from" none, path "save" none], 1⟩),
  ("validate", ⟨[help, verbose], 1⟩),
  ("info", ⟨[help, verbose], 1⟩),
  ("reset", ⟨[help, verbose, text "trigger" none], 1⟩)]

def absent (what : String) : Refusal :=
  .misuse ("the following required arguments were not provided: " ++ what)

def require (what : String) : Option String → Except Refusal String
  | some value => .ok value
  | none => .error (absent what)

-- The command of this name from what is given for it.
def make (name : String) (g : Given) : Except Refusal Command := do
  let operand := g.operands.head?
  match name with
  | "run" =>
    return .run {
      activity := ← require "<ACTIVITY>" operand
      world := ← require "--world <WORLD>" (g.value? "world")
      actor := g.value? "actor"
      targets := g.values "target"
      combatTurn := g.value? "combat-turn"
      rules := g.value? "rules"
      seed := (g.value? "seed").bind seed?
      gameMaster := g.has "gm"
      automatic := g.has "auto"
      origin := g.value? "from"
      directory := g.value? "save" }
  | "validate" => return .validate (← require "<ACTIVITY>" operand)
  | "info" => return .info (← require "<ACTIVITY>" operand)
  | _ =>
    return .reset (← require "<DIR>" operand) (← require "--trigger <TRIGGER>" (g.value? "trigger"))

def unknown (name : String) : Refusal := .misuse ("unrecognized subcommand '" ++ name ++ "'")

-- Help on the program, or on a command that exists.
def helpOn : List String → Refusal
  | [] => .help
  | name :: _ => if (forms.lookup name).isSome || name = "help" then .help else unknown name

def isGeneral (argument : String) : Bool := isOption argument && argument ≠ "--"

-- General options come first, then the command, and all after it belongs to the command.
def parse (arguments : List String) : Except Refusal Command :=
  match general.parse (arguments.takeWhile isGeneral) with
  | .error refusal => .error refusal
  | .ok _ =>
    match arguments.dropWhile isGeneral with
    | [] => .error (.misuse "a subcommand is required")
    | name :: rest =>
      if name = "help" then .error (helpOn rest)
      else
        match forms.lookup name with
        | none => .error (unknown name)
        | some form => (form.parse rest).bind (make name)

end Command

end Tabletop.Cli
