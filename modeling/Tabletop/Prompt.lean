import Tabletop.Binary64.Text
import Tabletop.Entity
import Tabletop.Timestamp

namespace Tabletop

structure Choice where
  value : String
  label : String
deriving DecidableEq, Inhabited

-- What is asked for: one of several entries, a number, or word that something is done.
inductive PromptKind where
  | select (choices : List Choice)
  | number (default min max : Option Binary64)
  | acknowledge
deriving DecidableEq

structure Prompt where
  title : String
  kind : PromptKind
deriving DecidableEq

-- What a user answers.
inductive Answer where
  | choice (value : String)
  | number (x : Binary64)
  | acknowledge
  | dismiss
deriving DecidableEq

-- What goes with a prompt so that its answer finds back: a token, and the time it was given.
structure Ticket where
  token : String
  time : Timestamp
deriving DecidableEq, Inhabited

def Ticket.numbered (n : Nat) : Ticket := ⟨"T" ++ toString (n + 1), default⟩

-- A fork that owes some of its targets a continuation.
structure Fork where
  origin : String
  resumeAt : Nat
  remaining : List Snapshot
  outerTarget : Option Snapshot

-- A walk that waits for an answer, and how it goes on. The innermost fork comes first.
structure Pending where
  token : String
  operation : String
  position : Nat
  prompt : Prompt
  target : Option Snapshot
  forks : List Fork
  createdAt : Timestamp

end Tabletop
