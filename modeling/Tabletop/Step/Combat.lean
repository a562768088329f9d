import Tabletop.Stage

-- Attacks, checks and tests.
namespace Tabletop.Visit

open Act

-- What is left of some hit points: armor takes its share of the damage, which never heals, and
-- damage that does not kill leaves the last point.
def hpAfter (d : DamageDealt) (hp armor : Binary64) : Binary64 :=
  let dealt := (d.amount - armor).positivePart
  let least := if d.nonLethal then Binary64.min hp 1 else 0
  Binary64.max (hp - dealt) least

def applyDamage (v : Visit) (d : DamageDealt) (target : String) : Act Unit := do
  let paths := v.setting.rules.paths
  let e ← v.entity target
  let hpPath := paths.hp ++ ".value"
  match e.number? hpPath with
  | none => announce .warning (e.name ++ " has no hit points to damage")
  | some hp =>
    let armor := if d.penetrate then 0 else (e.number? paths.armor).getD 0
    update v.setting.keeper target [.set hpPath (.ofNumber (hpAfter d hp armor))]

-- One damage entry as it was rolled.
structure DamageRoll where
  damage : Damage
  amount : Binary64
  formula : String
deriving DecidableEq

def DamageRoll.toJson (r : DamageRoll) : Json := .record [
  ("type", .str r.damage.damageType),
  ("formula", .str r.formula),
  ("amount", .ofNumber r.amount)]

-- The damage of one roll against each of the recipients.
def DamageRoll.dealt (r : DamageRoll) (recipients : List (Option String)) : List DamageDealt :=
  recipients.map fun target =>
    ⟨target, r.damage.damageType, r.amount, r.damage.penetrate, r.damage.nonLethal⟩

-- Every entry is rolled once, for all targets.
def attack (v : Visit) (damages : List Damage) (apply : Bool) : Act Outcome := do
  let targets ← v.targets
  if targets.isEmpty && v.setting.rules.targetRequired && !v.setting.isPrivileged then
    throw (v.precondition "select at least one target")
  let actor ← v.actor
  let data := v.rollData actor (← get).records
  let rolls ← damages.mapM fun damage => do
    let e ← v.evaluate damage.formula data
    return DamageRoll.mk damage e.total.positivePart e.formula
  let total := rolls.foldl (fun sum r => sum + r.amount) 0
  let recipients := if targets.isEmpty then [none] else targets.map fun t => some t.id
  let dealt := rolls.flatMap fun r => r.dealt recipients
  for d in dealt do
    emit (.damageDealt v.op.id d)
    match apply, d.target with
    | true, some target => v.applyDamage d target
    | _, _ => pure ()
  let notes := actor.name ++ " deals " ++ total.format ++ " damage to " ++
    toString targets.length ++ " target(s)"
  return .success notes (some (.ofNumber total))
    [("rolls", .arr (rolls.map DamageRoll.toJson)),
      ("damages", .arr (dealt.map DamageDealt.toJson))]

-- A roll of the die of checks, with its modifier.
structure CheckRoll where
  die : Binary64
  modifier : Binary64
  total : Binary64

-- An override replaces the die, or the total, where it is below the threshold.
def CheckRoll.make (override : Option RollOverride) (die modifier : Binary64) : CheckRoll :=
  let lift (stage : OverrideStage) (x : Binary64) : Binary64 :=
    match override with
    | some o => if o.stage = stage && x < o.threshold then o.value else x
    | none => x
  let die := lift .beforeModifiers die
  ⟨die, modifier, lift .afterModifiers (die + modifier)⟩

def rollCheck (v : Visit) (check : String) (data : RollData) (override : Option RollOverride) :
    Act CheckRoll := do
  let rules := v.setting.rules
  let die ← v.evaluate rules.checkDie data
  return .make override die.total ((data.number? (rules.modifierPath check)).getD 0)

def check (v : Visit) (name : String) (override : Option RollOverride)
    (difficulty : Option String) : Act Outcome := do
  let actor ← v.actor
  let data := v.rollData actor (← get).records
  let result ← v.rollCheck name data override
  let success ← match difficulty with
    | some formula => do
      let target ← v.evaluate formula data
      pure (Json.bool (decide (target.total ≤ result.total)))
    | none => pure Json.null
  let notes := actor.name ++ " rolls " ++ name ++ ": " ++ result.total.format
  announce .info notes
  return .success notes (some (.ofNumber result.total))
    [("die", .ofNumber result.die), ("modifier", .ofNumber result.modifier), ("success", success)]

structure TestResult where
  target : Snapshot
  success : Bool
  actorTotal : Binary64
  targetTotal : Binary64

def TestResult.toJson (r : TestResult) : Json := .record [
  ("target", .str r.target.id),
  ("success", .bool r.success),
  ("actorTotal", .ofNumber r.actorTotal),
  ("targetTotal", .ofNumber r.targetTotal)]

def wins (ties : TieBreak) (actorTotal targetTotal : Binary64) : Bool :=
  match actorTotal.compare? targetTotal with
  | some .gt => true
  | some .eq => ties == .actor
  | _ => false

-- The target defends first. There is no result where no test is configured.
def testOne (v : Visit) (specs : TestSpecs) (actorData : RollData) (target : Snapshot) :
    Act (Option TestResult) := do
  match specs.spec? target.disposition with
  | none =>
    announce .warning (v.op.label ++ ": no test configured against " ++ target.name)
    return none
  | some spec =>
    let defence ← v.rollCheck spec.targetCheck target.rollData none
    let actorTotal ← match spec.against with
      | .actorCheck name => do pure (← v.rollCheck name actorData none).total
      | .difficulty formula => do pure (← v.evaluate formula actorData).total
    let success := wins v.setting.rules.testTiesFavor actorTotal defence.total
    emit (.testResolved v.op.id target.id success actorTotal defence.total)
    return some ⟨target, success, actorTotal, defence.total⟩

-- How many of so many targets were overcome, in a word.
def aggregate (passed targets : Nat) : String :=
  if passed = 0 then "none" else if passed = targets then "total" else "partial"

-- The activity goes on once for each target that was overcome.
def test (v : Visit) (specs : TestSpecs) : Act Outcome := do
  let targets ← v.targets
  if targets.isEmpty then throw (v.precondition "no targets to test against")
  let actor ← v.actor
  let data := v.rollData actor (← get).records
  let results := (← targets.mapM (v.testOne specs data)).filterMap id
  let successes := (results.filter TestResult.success).map TestResult.target
  let word := aggregate successes.length targets.length
  let notes := v.op.label ++ ": " ++ word ++ " success (" ++ toString successes.length ++ "/" ++
    toString targets.length ++ ")"
  announce .info notes
  return {
    result := .forked successes
    value := some (.ofNat successes.length)
    fields := [("outcome", .str word), ("results", .arr (results.map TestResult.toJson))]
    notes }

end Tabletop.Visit
