import Tabletop.Document.Activity
import Tabletop.Host

-- Activities are kept in a directory between invocations.
namespace Tabletop

open Document

structure SavedActivity where
  activity : Activity
  savedAt : String

namespace SavedActivity

def read : Reader SavedActivity := record do
  let activity ← need "activity" Activity.read
  let savedAt ← need "savedAt" Document.text
  return { activity, savedAt }

def toJson (s : SavedActivity) : Json := .record [
  ("activity", s.activity.toJson),
  ("savedAt", .str s.savedAt)]

end SavedActivity

namespace Archive

def fileName : String := "activity.json"

def encode (savedAt : Timestamp) (activity : Activity) : String :=
  (SavedActivity.mk activity savedAt.offsetText).toJson.indented 0

def decode (text : String) : Except Failure Activity :=
  match (Json.read? text).bind SavedActivity.read with
  | some saved => .ok saved.activity
  | none => .error .malformed

variable {m : Type → Type} [Monad m]

-- Writes the activity to its file and gives the path.
def save (host : Host m) (activity : Activity) (directory : String) :
    m (Except Failure String) := do
  match ← host.makeRoom directory with
  | .error fault => return .error fault.toFailure
  | .ok () =>
    let path := Host.inside directory fileName
    match ← host.write path (encode (← host.now) activity) with
    | .error fault => return .error fault.toFailure
    | .ok () => return .ok path

def load (host : Host m) (directory : String) : m (Except Failure (Option Activity)) := do
  match ← host.contents (Host.inside directory fileName) with
  | .error .missing => return .ok none
  | .error fault => return .error fault.toFailure
  | .ok text => return (decode text).map some

-- Drops the unanswered prompt of a saved activity, and tells whether there was one.
def clearPending (host : Host m) (directory : String) : m (Except Failure Bool) := do
  match ← load host directory with
  | .error failure => return .error failure
  | .ok none => return .ok false
  | .ok (some activity) =>
    let (found, cleared) := activity.clearPending
    return (← save host cleared directory).map fun _ => found

end Archive

end Tabletop
