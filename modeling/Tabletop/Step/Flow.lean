import Tabletop.Stage

-- Operations that direct the walk: conditions, targeting, questions and messages.
namespace Tabletop.Visit

open Act

-- The actual value of a predicate; what is not there is null. An operation's record is read at the
-- field after the first dot, or at its value.
def actual (v : Visit) (p : Predicate) (actor : Entity) (data : RollData) (records : Records) :
    Json :=
  (match p.source with
    | .rollData => data.find? p.key
    | .system => actor.get? p.key
    | .activity => v.plan.system.get? p.key
    | .operation =>
      let (id, field) := match Text.cut '.' p.key.toList with
        | some (id, field) => (String.ofList id, String.ofList field)
        | none => (p.key, "value")
      (records.find? id).bind fun record => record.get? field
    | .flag => actor.flags.find? p.key).getD .null

def judge (v : Visit) (actor : Entity) (data : RollData) (p : Predicate) :
    Act (Predicate × Bool) := do
  let actual := v.actual p actor data (← get).records
  let expected := Json.ofLiteral (← v.substitute p.value)
  return (p, actual.compareBy p.comparison expected)

def verdictJson (p : Predicate) (passed : Bool) : Json :=
  .record [("predicate", .str p.describe), ("passed", .bool passed)]

-- All predicates are judged, by ascending priority. The first that fails gives the reason.
def condition (v : Visit) (conditions : List Predicate) (proceedAnyway : Bool) : Act Outcome := do
  let actor ← v.actor
  let data := v.rollData actor (← get).records
  let verdicts ← (conditions.mergeSort (fun a b => a.priority ≤ b.priority)).mapM
    (v.judge actor data)
  let fields := [("results", Json.arr (verdicts.map fun (p, passed) => verdictJson p passed))]
  match verdicts.find? fun (_, passed) => !passed with
  | none => return .success "all conditions met" (some (.bool true)) fields
  | some (p, _) =>
    if proceedAnyway then
      return .success "conditions not met, proceeding anyway" (some (.bool false)) fields
    else
      return { result := .halted ("condition not met: " ++ p.describe)
               value := some (.bool false), fields }

-- The number of a roll as a place among so many.
def place (total : Binary64) (count : Nat) : Nat :=
  let n := total.toInt.toNat
  (max 1 (min n count)) - 1

-- The activity goes on once for each selected target, or for one of them.
def target (v : Visit) (appliesTo : AppliesTo) : Act Outcome := do
  let selected ← v.selectedTargets
  if selected.isEmpty then throw (v.precondition "no targets selected")
  let chosen ← match appliesTo with
    | .each => pure selected
    | .random => do
      let e ← roll ("1d" ++ toString selected.length) Dict.empty
      pure (selected[place e.total selected.length]?).toList
  return {
    result := .forked chosen
    value := some (.ofNat chosen.length)
    notes := "targeting " ++ Text.commaList (chosen.map Snapshot.name) }

def variableTitle (v : Visit) (label : String) : String :=
  if label.isEmpty then v.op.label else label

def askVariable (v : Visit) (label : String) (default min max : Option Binary64) : Outcome :=
  .suspended ⟨v.variableTitle label, .number default min max⟩

-- A number within the bounds; an acknowledgement stands for the default.
def acceptVariable (v : Visit) (label : String) (default min max : Option Binary64)
    (answer : Answer) : Except Failure Outcome := do
  let n ← match answer with
    | .number n => .ok n
    | .choice text =>
      match Binary64.ofText? (Text.trim text) with
      | some n => .ok n
      | none => .error (v.rejected ("'" ++ text ++ "' is not a number"))
    | .acknowledge =>
      match default with
      | some n => .ok n
      | none => .error (v.rejected "a number is required")
    | .dismiss => .error (.cancelled v.op.id)
  if !n.isFinite then .error (v.rejected "a finite number is required")
  else match min.filter fun least => n < least with
    | some least => .error (v.rejected ("must be at least " ++ least.format))
    | none =>
      match max.filter fun greatest => greatest < n with
      | some greatest => .error (v.rejected ("must be at most " ++ greatest.format))
      | none =>
        return .success (v.variableTitle label ++ " = " ++ n.format) (some (.ofNumber n))

-- The operations that may be selected: those listed, or else all others that are deferred.
def candidates (v : Visit) (operations : List String) : List Choice :=
  if operations.isEmpty then v.plan.choicesOf fun op => !op.immediate && op.id != v.op.id
  else (operations.filterMap v.plan.operation?).map fun op => ⟨op.id, op.label⟩

def nothingToChoose (v : Visit) : Failure := v.precondition "there is nothing to choose from"

def askOperation (v : Visit) (operations : List String) (title : Option String) :
    Except Failure Outcome :=
  let choices := v.candidates operations
  if choices.isEmpty then .error v.nothingToChoose
  else .ok (.suspended ⟨title.getD (v.op.label ++ ": choose an operation"), .select choices⟩)

-- The walk goes on at the operation that was chosen.
def acceptOperation (v : Visit) (operations : List String) (answer : Answer) :
    Except Failure (Outcome × Option String) :=
  let choices := v.candidates operations
  if choices.isEmpty then .error v.nothingToChoose
  else match answer with
    | .choice id =>
      if choices.any fun c => c.value == id then
        .ok (.success ("chose " ++ id) (some (.str id)), some id)
      else .error (v.rejected ("'" ++ id ++ "' is not one of the offered operations"))
    | _ => .error (v.rejected "expected a choice")

def askOption (v : Visit) (options : List OptionEntry) (title : Option String) :
    Except Failure Outcome :=
  if options.isEmpty then .error v.nothingToChoose
  else
    let choices := options.mapIdx fun i o => Choice.mk (toString i) o.label
    .ok (.suspended ⟨title.getD (v.op.label ++ ": choose an option"), .select choices⟩)

-- The entry with this number, counted from zero, or else the first with this label.
def option? (options : List OptionEntry) (choice : String) : Option OptionEntry :=
  ((Text.toNatUpTo? (Bits.greatest 64) choice).bind fun i => options[i]?) <|>
    options.find? fun o => o.label == choice

-- An entry without a value counts as its label.
def acceptOption (v : Visit) (options : List OptionEntry) (answer : Answer) :
    Except Failure (Outcome × Option String) :=
  if options.isEmpty then .error v.nothingToChoose
  else match answer with
    | .choice choice =>
      match option? options choice with
      | some entry =>
        let value := if entry.value.isNull then .str entry.label else entry.value
        .ok (.success ("chose " ++ entry.label) (some value) [("label", .str entry.label)],
          entry.continueFrom)
      | none => .error (v.rejected ("'" ++ choice ++ "' is not one of the options"))
    | _ => .error (v.rejected "expected a choice")

def message (v : Visit) (text : String) : Act Outcome := do
  let text ← v.substitute text
  announce .info text
  return .success text

end Tabletop.Visit
