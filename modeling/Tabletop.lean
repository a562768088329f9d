import Tabletop.Activity
import Tabletop.Archive
import Tabletop.Binary64.Basic
import Tabletop.Binary64.Shortest
import Tabletop.Binary64.Text
import Tabletop.Bits
import Tabletop.Cli
import Tabletop.Cli.Arguments
import Tabletop.Cli.Command
import Tabletop.Cli.Info
import Tabletop.Cli.Scenario
import Tabletop.Conversation
import Tabletop.Dice
import Tabletop.Dict
import Tabletop.Document.Activity
import Tabletop.Document.Entity
import Tabletop.Document.Operation
import Tabletop.Document.Prompt
import Tabletop.Document.Report
import Tabletop.Document.Rules
import Tabletop.Document.Shape
import Tabletop.Entity
import Tabletop.Event
import Tabletop.Failure
import Tabletop.Formula.Basic
import Tabletop.Formula.Evaluation
import Tabletop.Formula.Parser
import Tabletop.Formula.Placeholder
import Tabletop.Host
import Tabletop.Json.Basic
import Tabletop.Json.Path
import Tabletop.Json.Text
import Tabletop.Ledger
import Tabletop.Main
import Tabletop.Operation
import Tabletop.Predicate
import Tabletop.Prompt
import Tabletop.Proofs.Archive
import Tabletop.Proofs.Binary64.Alike
import Tabletop.Proofs.Binary64.Rounding
import Tabletop.Proofs.Binary64.Shortest
import Tabletop.Proofs.Conversation.Automatic
import Tabletop.Proofs.Conversation.Ending
import Tabletop.Proofs.Conversation.Noting
import Tabletop.Proofs.Conversation.Reports
import Tabletop.Proofs.Dict
import Tabletop.Proofs.Document.Activity
import Tabletop.Proofs.Document.Finite
import Tabletop.Proofs.Document.Giving
import Tabletop.Proofs.Document.Operation
import Tabletop.Proofs.Document.Shape
import Tabletop.Proofs.Document.Target
import Tabletop.Proofs.Entity
import Tabletop.Proofs.Formula.Completeness
import Tabletop.Proofs.Formula.Evaluation
import Tabletop.Proofs.Formula.Forms
import Tabletop.Proofs.Formula.Grammar
import Tabletop.Proofs.Formula.Literals
import Tabletop.Proofs.Formula.Placeholder
import Tabletop.Proofs.Formula.Resolved
import Tabletop.Proofs.Formula.Soundness
import Tabletop.Proofs.Formula.Splicing
import Tabletop.Proofs.Formula.Templates
import Tabletop.Proofs.Json.Decimals
import Tabletop.Proofs.Json.Finite
import Tabletop.Proofs.Json.Numbers
import Tabletop.Proofs.Json.Openings
import Tabletop.Proofs.Json.Path
import Tabletop.Proofs.Json.Reading
import Tabletop.Proofs.Json.Strings
import Tabletop.Proofs.Json.Text
import Tabletop.Proofs.Json.Write
import Tabletop.Proofs.Ledger
import Tabletop.Proofs.Ledger.Bounds
import Tabletop.Proofs.Ledger.Requests
import Tabletop.Proofs.Predicate
import Tabletop.Proofs.Records
import Tabletop.Proofs.Records.Values
import Tabletop.Proofs.Recursion.Basic
import Tabletop.Proofs.Recursion.Refinement
import Tabletop.Proofs.Recursion.Unwinding
import Tabletop.Proofs.RollData
import Tabletop.Proofs.Session.Billing
import Tabletop.Proofs.Session.Calls
import Tabletop.Proofs.Session.Chronicle
import Tabletop.Proofs.Session.Console
import Tabletop.Proofs.Session.Course
import Tabletop.Proofs.Session.Descent
import Tabletop.Proofs.Session.Edits
import Tabletop.Proofs.Session.Footprint
import Tabletop.Proofs.Session.Formulas
import Tabletop.Proofs.Session.Frame
import Tabletop.Proofs.Session.Halts
import Tabletop.Proofs.Session.Mirror
import Tabletop.Proofs.Session.Opening
import Tabletop.Proofs.Session.Rejection
import Tabletop.Proofs.Session.Relating
import Tabletop.Proofs.Session.Rest
import Tabletop.Proofs.Session.Rounds
import Tabletop.Proofs.Session.Starts
import Tabletop.Proofs.Session.Statuses
import Tabletop.Proofs.Session.Stock
import Tabletop.Proofs.Session.Stops
import Tabletop.Proofs.Session.Suspension
import Tabletop.Proofs.Session.Targets
import Tabletop.Proofs.Session.Telling
import Tabletop.Proofs.Session.Uses
import Tabletop.Proofs.Step.Aims
import Tabletop.Proofs.Step.Automatic
import Tabletop.Proofs.Step.Components
import Tabletop.Proofs.Step.Effects
import Tabletop.Proofs.Step.Faults
import Tabletop.Proofs.Step.Fields
import Tabletop.Proofs.Step.Formulas
import Tabletop.Proofs.Step.Frame
import Tabletop.Proofs.Step.Keeping
import Tabletop.Proofs.Step.Lookups
import Tabletop.Proofs.Step.Overlays
import Tabletop.Proofs.Step.Predicates
import Tabletop.Proofs.Step.Prompts
import Tabletop.Proofs.Step.References
import Tabletop.Proofs.Step.Rejection
import Tabletop.Proofs.Step.Resource
import Tabletop.Proofs.Step.Restoring
import Tabletop.Proofs.Step.Statuses
import Tabletop.Proofs.Step.Uses
import Tabletop.Proofs.Text.Digits
import Tabletop.Proofs.Text.Trimming
import Tabletop.Proofs.Validation
import Tabletop.Proofs.Walk.Billing
import Tabletop.Proofs.Walk.Binding
import Tabletop.Proofs.Walk.Chronicle
import Tabletop.Proofs.Walk.Cost
import Tabletop.Proofs.Walk.Descent
import Tabletop.Proofs.Walk.Earlier
import Tabletop.Proofs.Walk.Footprint
import Tabletop.Proofs.Walk.Frame
import Tabletop.Proofs.Walk.Halts
import Tabletop.Proofs.Walk.Keeping
import Tabletop.Proofs.Walk.Mirror
import Tabletop.Proofs.Walk.Owing
import Tabletop.Proofs.Walk.Payment
import Tabletop.Proofs.Walk.Places
import Tabletop.Proofs.Walk.Relating
import Tabletop.Proofs.Walk.Statuses
import Tabletop.Proofs.Walk.Stock
import Tabletop.Proofs.Walk.Stops
import Tabletop.Proofs.Walk.Turns
import Tabletop.Proofs.Walk.Uses
import Tabletop.Proofs.World
import Tabletop.Proofs.World.Frame
import Tabletop.Proofs.World.Updates
import Tabletop.Records
import Tabletop.Reply
import Tabletop.Report
import Tabletop.RollData
import Tabletop.Rules
import Tabletop.Session
import Tabletop.Stage
import Tabletop.Step
import Tabletop.Step.Actor
import Tabletop.Step.Combat
import Tabletop.Step.Flow
import Tabletop.Step.Resource
import Tabletop.Text.Basic
import Tabletop.Timestamp
import Tabletop.Validation
import Tabletop.Walk
import Tabletop.Walk.Cost
import Tabletop.Walk.Cursor
import Tabletop.Walk.Run
import Tabletop.World
import Tabletop.Proofs.Step.Commitment
import Tabletop.Proofs.Step.Rising
import Tabletop.Proofs.Step.Striking
import Tabletop.Proofs.Step.Wounds
import Tabletop.Proofs.Step.Attack
import Tabletop.Proofs.Comparison.Duality
import Tabletop.Proofs.Comparison.Ordering
import Tabletop.Proofs.Formula.Substitution
import Tabletop.Proofs.Json.Laws
import Tabletop.Proofs.Formula.Throws
import Tabletop.Proofs.Walk.Verdicts
import Tabletop.Proofs.Step.Trials
