import Tabletop.Archive
import Tabletop.Cli.Command
import Tabletop.Cli.Info
import Tabletop.Cli.Scenario
import Tabletop.Conversation

-- The program: it runs, checks and shows activities from files, on any host.
namespace Tabletop.Cli

-- Ends with the message for the user, or with an exit code.
abbrev Job (m : Type → Type) := ExceptT String m

variable {m : Type → Type} [Monad m]

def attempt (action : m (Except FileFault α)) : Job m α := do
  match ← (action : m _) with
  | .ok a => return a
  | .error fault => throw fault.message

def orFail : Except Failure α → Job m α
  | .ok a => return a
  | .error failure => throw failure.text

def say (host : Host m) (lines : List String) : Job m Unit :=
  lines.forM fun line => (host.say line : m Unit)

def readDocument (host : Host m) (reader : Document.Reader α) (path : String) : Job m α := do
  let text ← attempt (host.contents path)
  match (Json.read? text).bind reader with
  | some a => return a
  | none => throw Failure.malformed.text

def validate (host : Host m) (path : String) : Job m UInt32 := do
  let activity ← readDocument host Activity.read path
  let found := activity.diagnostics
  if found.isEmpty then say host ["Activity is valid"]
  else say host (found.map diagnosticLine)
  return if found.any fun d => d.severity = .error then 1 else 0

def info (host : Host m) (path : String) : Job m UInt32 := do
  let activity ← readDocument host Activity.read path
  say host (Info.lines activity)
  return 0

def reset (host : Host m) (directory trigger : String) : Job m UInt32 := do
  let trigger ← match ResetTrigger.parse trigger with
    | .ok t => pure t
    | .error message => throw message
  match ← orFail (← (Archive.load host directory : m _)) with
  | none => throw ("No saved activity in " ++ directory)
  | some activity =>
    let (ids, activity) := activity.resetResources trigger
    let _ ← orFail (← (Archive.save host activity directory : m _))
    say host [if ids.isEmpty then "Nothing to reset" else "Reset: " ++ Text.commaList ids]
    return 0

/-! Runs -/

def eventLine : Event → Option String
  | .notification _ message => some ("  " ++ message)
  | .operationSkipped operation reason =>
    some ("  (skipped " ++ operation ++ ": " ++ reason ++ ")")
  | _ => none

-- Somebody at the console, who answers prompts, or leaves all of them to be answered
-- automatically.
def audience (host : Host m) (automatic : Bool) : Audience m where
  hear events := (events.filterMap eventLine).forM host.say
  answer prompt := do
    if automatic then return .ok prompt.automatic
    prompt.lines.forM host.say
    match ← host.nextLine with
    | .ok line => return .ok (prompt.answerOfLine line)
    | .error fault => return .error fault.toFailure

-- The encounter of the world, with another combatant's turn when one is named.
def encounter (scenario : Scenario) (turn : Option String) : Option Combat :=
  match turn with
  | some id => some ⟨id, (scenario.combat.map Combat.round).getD 1⟩
  | none => scenario.combat

def opening (activity : Activity) (setting : Setting) : List String :=
  ["Running activity: " ++ activity.name, "Actor: " ++ setting.actor] ++
  (if setting.targets.isEmpty then [] else ["Targets: " ++ Text.commaList setting.targets]) ++
  setting.combat.toList.map fun c =>
    "Combat: round " ++ toString c.round ++ ", " ++ c.activeCombatant ++ "'s turn"

def haltLine (h : HaltRecord) : String :=
  "  halted at " ++ h.operation ++ ((h.target.map fun t => " [" ++ t ++ "]").getD "") ++ ": " ++
    h.reason

def statusLine : RunStatus → String
  | .completed => "Activity completed"
  | .halted => "Activity halted"
  | .suspended _ prompt => "Waiting on: " ++ prompt.title

def summary (r : Report) : List String :=
  ["", statusLine r.status, "Steps: " ++ toString r.steps.length] ++ r.halts.map haltLine

def saveAll (host : Host m) (session : Session) (combat : Option Combat) (directory : String) :
    Job m Unit := do
  let path ← orFail (← (Archive.save host session.activity directory : m _))
  let world : Scenario := ⟨Dict.values session.world, combat⟩
  attempt (host.write (Host.inside directory "world.json") (world.toJson.indented 0))
  say host ["Saved: " ++ path]

-- More replies than anybody gives.
def replyLimit : Nat := Bits.greatest 64

def actorOf (options : RunOptions) (scenario : Scenario) : Job m String :=
  match options.actor <|> scenario.entities.head?.map Entity.id with
  | some id => return id
  | none => throw "The world has no entities"

def run (host : Host m) (options : RunOptions) : Job m UInt32 := do
  let activity ← readDocument host Activity.read options.activity
  let scenario ← readDocument host Scenario.read options.world
  let actor ← actorOf options scenario
  let rules ← match options.rules with
    | some path => readDocument host Rules.read path
    | none => pure {}
  let seed ← match options.seed with
    | some n => pure (UInt64.ofNat n)
    | none => host.chance
  let setting : Setting :=
    { actor, targets := options.targets, combat := encounter scenario options.combatTurn, rules
      role := if options.gameMaster then .gameMaster else .player }
  say host (opening activity setting)
  let session : Session :=
    { activity, world := World.ofList scenario.entities, dice := Dice.seeded seed }
  let (result, session) ←
    (session.converse setting options.origin (audience host options.automatic) replyLimit : m _)
  match result with
  | none => throw "too many replies"
  | some result =>
    let report ← orFail result
    say host (summary report)
    match options.directory with
    | some directory => saveAll host session setting.combat directory
    | none => pure ()
    return 0

/-! The program as a whole -/

def helpLines : List String := [
  "Tabletop activity pipeline runner",
  "",
  "Usage: rulebook [OPTIONS] <COMMAND>",
  "",
  "Commands:",
  "  run       Run an activity against a world file",
  "  validate  Validate an activity .json file",
  "  info      Show the operations of an activity in execution order",
  "  reset     Reset ledger resources of a saved activity"]

def perform (host : Host m) : Command → Job m UInt32
  | .run options => run host options
  | .validate activity => validate host activity
  | .info activity => info host activity
  | .reset directory trigger => reset host directory trigger

-- Carries out what the arguments ask for and gives the exit code: 1 for failures, 2 for misuse.
def execute (host : Host m) (arguments : List String) : m UInt32 := do
  match Command.parse arguments with
  | .error .help => do helpLines.forM host.say; return 0
  | .error .version => do host.say "rulebook 0.1.0"; return 0
  | .error (.misuse message) => do host.complain ("error: " ++ message); return 2
  | .ok command =>
    match ← (perform host command).run with
    | .ok code => return code
    | .error message => do host.complain ("Error: " ++ message); return 1

end Tabletop.Cli
