import Tabletop.Ledger
import Tabletop.Predicate
import Tabletop.Prompt

namespace Tabletop

-- The pool that action points come from. The current one is that of the turn on the actor's own
-- turn, and that of interrupts otherwise.
inductive CostCategory where
  | turn
  | interrupt
  | current
deriving DecidableEq, Inhabited

-- Formulas for action points and stamina; blank ones are free.
structure Costs where
  actions : String := ""
  category : CostCategory := .turn
  stamina : String := ""
deriving DecidableEq, Inhabited

def Costs.isFree (c : Costs) : Bool := Text.allBlank c.actions && Text.allBlank c.stamina

-- When an operation may be performed.
structure Performance where
  combatOnly : Bool := false
  ownTurn : Bool := true
  othersTurn : Bool := true
deriving DecidableEq, Inhabited

-- Statuses of the acting entity that flip after success.
structure ToggleEffects where
  statuses : List String := []
  announce : Bool := false
deriving DecidableEq, Inhabited

structure Damage where
  formula : String
  damageType : String := "physical"
  penetrate : Bool := false
  nonLethal : Bool := false
deriving DecidableEq, Inhabited

inductive OverrideStage where
  | beforeModifiers
  | afterModifiers
deriving DecidableEq, Inhabited

-- A roll below the threshold takes the value instead.
structure RollOverride where
  threshold : Binary64
  value : Binary64
  stage : OverrideStage
deriving DecidableEq

-- What a target's check is up against: a check of the actor or a formula.
inductive TestAgainst where
  | actorCheck (check : String)
  | difficulty (formula : String)
deriving DecidableEq, Inhabited

structure TestSpec where
  targetCheck : String
  against : TestAgainst
deriving DecidableEq, Inhabited

structure TestSpecs where
  friendly : Option TestSpec := none
  neutral : Option TestSpec := none
  hostile : Option TestSpec := none
  secret : Option TestSpec := none
  default : Option TestSpec := none
deriving DecidableEq, Inhabited

def TestSpecs.spec? (t : TestSpecs) (d : Disposition) : Option TestSpec :=
  (match d with
    | .friendly => t.friendly
    | .neutral => t.neutral
    | .hostile => t.hostile
    | .secret => t.secret) <|> t.default

inductive AppliesTo where
  | each
  | random
deriving DecidableEq, Inhabited

-- How many items of a slot are used.
inductive SlotPolicy where
  | single
  | upTo (n : Nat)
  | all
deriving DecidableEq, Inhabited

inductive UseSource where
  | item (reference : String)
  | slot (slot : String) (policy : SlotPolicy)
deriving DecidableEq, Inhabited

inductive Recipient where
  | actor
  | target
deriving DecidableEq, Inhabited

-- So many of an item, known by id or name, that are used up.
structure Component where
  item : String
  quantity : Nat
deriving DecidableEq, Inhabited

structure Restore where
  resource : String
  formula : String
deriving DecidableEq, Inhabited

structure OptionEntry where
  label : String
  value : Json
  continueFrom : Option String
deriving Inhabited

inductive OperationKind where
  | attack (damages : List Damage) (applyDamage : Bool)
  | check (check : String) (override : Option RollOverride) (difficulty : Option String)
  | test (specs : TestSpecs)
  | condition (conditions : List Predicate) (proceedAnyway : Bool)
  | target (appliesTo : AppliesTo)
  | use (source : UseSource)
  | createResource (name maximum : String) (negativeAllowed : Bool) (reset : ResetTrigger)
  | consumeResource (resource amount : String)
  | heal (formula : String) (resource : Option String) (recipient : Recipient)
      (components : List Component)
  | consumption (restores : List Restore) (components : List Component) (recipient : Recipient)
  | setFlag (key value : String)
  | variable (label : String) (default min max : Option Binary64)
  | travel (modifier : String)
  | selectOperation (operations : List String) (title : Option String)
  | selectOption (options : List OptionEntry) (title : Option String)
  | message (text : String)

namespace OperationKind

def name : OperationKind → String
  | .attack .. => "attack"
  | .check .. => "check"
  | .test .. => "test"
  | .condition .. => "condition"
  | .target .. => "target"
  | .use .. => "use"
  | .createResource .. => "createResource"
  | .consumeResource .. => "consumeResource"
  | .heal .. => "heal"
  | .consumption .. => "consumption"
  | .setFlag .. => "setFlag"
  | .variable .. => "variable"
  | .travel .. => "travel"
  | .selectOperation .. => "selectOperation"
  | .selectOption .. => "selectOption"
  | .message .. => "message"

-- Every text in which placeholders are replaced.
def formulas : OperationKind → List String
  | .attack damages _ => damages.map Damage.formula
  | .check _ _ difficulty => difficulty.toList
  | .test t =>
    [t.friendly, t.neutral, t.hostile, t.secret, t.default].filterMap fun spec =>
      match spec with
      | some ⟨_, .difficulty f⟩ => some f
      | _ => none
  | .condition conditions _ => conditions.map Predicate.value
  | .createResource _ maximum _ _ => [maximum]
  | .consumeResource _ amount => [amount]
  | .heal formula _ _ _ => [formula]
  | .consumption restores _ _ => restores.map Restore.formula
  | .setFlag _ value => [value]
  | .travel modifier => [modifier]
  | .message text => [text]
  | .target _ | .use _ | .variable .. | .selectOperation .. | .selectOption .. => []

end OperationKind

structure Operation where
  id : String
  name : String := ""
  priority : Int := 0
  costs : Costs := {}
  performance : Performance := {}
  -- A deferred operation runs only when it is selected.
  immediate : Bool := true
  toggles : ToggleEffects := {}
  kind : OperationKind

namespace Operation

-- The name, or the id of a nameless operation.
def label (op : Operation) : String := if op.name.isEmpty then op.id else op.name

-- The texts of the operation itself and of its costs.
def formulas (op : Operation) : List String :=
  op.kind.formulas ++ [op.costs.actions, op.costs.stamina]

end Operation

end Tabletop
