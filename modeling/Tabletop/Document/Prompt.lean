import Tabletop.Document.Entity
import Tabletop.Prompt

namespace Tabletop

open Document

namespace Choice

def read : Reader Choice := record do
  let value ← need "value" text
  let label ← need "label" text
  return { value, label }

def toJson (c : Choice) : Json := .record [("value", .str c.value), ("label", .str c.label)]

end Choice

namespace PromptKind

def tags : List String := ["select", "number", "acknowledge"]

def fields : FieldReader PromptKind := do
  match ← need "kind" (tag tags) with
  | "select" => return .select (← need "choices" (list Choice.read))
  | "number" =>
    let default ← optional "default" real
    let min ← optional "min" real
    let max ← optional "max" real
    return .number default min max
  | _ => return .acknowledge

def members : PromptKind → List (String × Json)
  | .select choices => [("kind", .str "select"), ("choices", .arr (choices.map Choice.toJson))]
  | .number default min max =>
    [("kind", .str "number"), ("default", .ofOption .ofReal default),
     ("min", .ofOption .ofReal min), ("max", .ofOption .ofReal max)]
  | .acknowledge => [("kind", .str "acknowledge")]

end PromptKind

namespace Prompt

def read : Reader Prompt := sharedRecord do
  let title ← need "title" text
  let kind ← PromptKind.fields
  return { title, kind }

def toJson (p : Prompt) : Json := .record (("title", .str p.title) :: p.kind.members)

end Prompt

namespace Answer

-- A content that says nothing may be left out of an object, but not out of an array.
def noContent : FieldReader Unit := do
  match ← next? ["value"], ← get with
  | some .null, _ => return ()
  | none, .named _ => return ()
  | _, _ => failure

def bare : Reader String := fun j => do
  let (name, content) ← case? j
  if isUnit content then some name else none

def read : Reader Answer := record do
  match ← need "kind" bare with
  | "choice" => return .choice (← need "value" text)
  | "number" => return .number (← need "value" real)
  | "acknowledge" => do noContent; return .acknowledge
  | "dismiss" => do noContent; return .dismiss
  | _ => failure

def toJson : Answer → Json
  | .choice value => .record [("kind", .str "choice"), ("value", .str value)]
  | .number x => .record [("kind", .str "number"), ("value", .ofReal x)]
  | .acknowledge => .record [("kind", .str "acknowledge")]
  | .dismiss => .record [("kind", .str "dismiss")]

end Answer

namespace Fork

def read : Reader Fork := record do
  let origin ← need "origin" text
  let resumeAt ← need "resumeAt" nat64
  let remaining ← need "remaining" (list Snapshot.read)
  let outerTarget ← optional "outerTarget" Snapshot.read
  return { origin, resumeAt, remaining, outerTarget }

def toJson (f : Fork) : Json := .record [
  ("origin", .str f.origin),
  ("resumeAt", .ofNat f.resumeAt),
  ("remaining", .arr (f.remaining.map Snapshot.toJson)),
  ("outerTarget", .ofOption Snapshot.toJson f.outerTarget)]

end Fork

namespace Timestamp

def read : Reader Timestamp := fun j => (Document.text j).bind parse?

def toJson (t : Timestamp) : Json := .str t.text

end Timestamp

namespace Pending

-- A document lists the outermost fork first.
def read : Reader Pending := record do
  let token ← need "token" text
  let operation ← need "operationId" text
  let position ← need "position" nat64
  let prompt ← need "prompt" Prompt.read
  let target ← optional "target" Snapshot.read
  let forks ← need "forks" (list Fork.read)
  let createdAt ← need "createdAt" Timestamp.read
  return { token, operation, position, prompt, target, forks := forks.reverse, createdAt }

-- All but the time of creation.
def members (p : Pending) : List (String × Json) := [
  ("token", .str p.token),
  ("operationId", .str p.operation),
  ("position", .ofNat p.position),
  ("prompt", p.prompt.toJson),
  ("target", .ofOption Snapshot.toJson p.target),
  ("forks", .arr (p.forks.reverse.map Fork.toJson))]

def toJson (p : Pending) : Json := .record (("createdAt", p.createdAt.toJson) :: p.members)

end Pending

end Tabletop
