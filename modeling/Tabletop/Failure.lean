namespace Tabletop

inductive Failure where
  -- Gates that the user hears of.
  | precondition (operation message : String)
  | cancelled (operation : String)
  -- Formulas.
  | evaluation (formula message : String)
  | misread (formula : String) (position : Nat) (message : String)
  | unresolved (operation placeholder : String)
  -- The activity as it was authored.
  | configuration (message : String)
  | invalid (message : String)
  -- Answers to prompts.
  | rejected (operation message : String)
  | unknownToken (token : String)
  | nothingPending
  -- The world and everything else.
  | unknownEntity (id : String)
  | malformed
  | storage (message : String)
  | other (message : String)
deriving DecidableEq

inductive FailureKind where
  | precondition
  | evaluation
  | cancellation
  | configuration
  | internal
deriving DecidableEq

namespace FailureKind

def name : FailureKind → String
  | .precondition => "precondition"
  | .evaluation => "evaluation"
  | .cancellation => "cancellation"
  | .configuration => "configuration"
  | .internal => "internal"

end FailureKind

namespace Failure

-- What the user reads of a failure, in pieces.
def pieces : Failure → List String
  | .precondition op m => ["Operation '", op, "' cannot run: ", m]
  | .cancelled op => ["Operation '", op, "' was cancelled by the user"]
  | .evaluation f m => ["Failed to evaluate '", f, "': ", m]
  | .misread f p m => ["Formula parse error in '", f, "' at ", toString p, ": ", m]
  | .unresolved op p =>
    ["Operation '", op, "' references unresolved placeholder '#", p, "'"]
  | .configuration m => ["Configuration error: ", m]
  | .invalid m => ["Activity validation failed: ", m]
  | .rejected op m => ["Invalid input for operation '", op, "': ", m]
  | .unknownToken t => ["No pending prompt matches resume token '", t, "'"]
  | .nothingPending => ["Activity has no pending prompt"]
  | .unknownEntity id => ["Entity '", id, "' not found"]
  | .malformed => ["JSON error"]
  | .storage m => ["IO error: ", m]
  | .other m => [m]

def text (f : Failure) : String := String.join f.pieces

def kind : Failure → FailureKind
  | .precondition .. | .unknownEntity _ => .precondition
  | .evaluation .. | .misread .. => .evaluation
  | .cancelled _ => .cancellation
  | .unresolved .. | .configuration _ | .invalid _ => .configuration
  | _ => .internal

-- A formula that cannot be evaluated counts as zero; every other failure ends its branch.
def halts (f : Failure) : Bool := f.kind ≠ .evaluation

end Failure

end Tabletop
