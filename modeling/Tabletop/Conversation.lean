import Tabletop.Reply
import Tabletop.Session

namespace Tabletop

-- Whom a conversation is held with: somebody who hears of events and answers prompts.
structure Audience (m : Type → Type) where
  hear : List Event → m Unit
  answer : Prompt → m (Except Failure Answer)

-- An invocation whose prompts are answered as they come.
structure Conversation where
  session : Session
  report : Report
  -- The answers in a row that were not accepted.
  rejections : Nat := 0

namespace Conversation

-- After so many answers that were not accepted a prompt is dismissed.
def patience : Nat := 3

-- Gives an answer to the prompt of this token. When it is not accepted, the prompt stays and the
-- user hears why.
def reply (setting : Setting) (token : String) (answer : Answer) (c : Conversation) :
    Except Failure Unit × Conversation :=
  match c.session.resume setting token answer with
  | (.ok next, session) => (.ok (), ⟨session, c.report.followedBy next, 0⟩)
  | (.error (.rejected _ message), session) =>
    (.ok (), ⟨session.emit (.notification .warning message), c.report, c.rejections + 1⟩)
  | (.error failure, session) => (.error failure, { c with session })

variable {m : Type → Type} [Monad m]

-- Asks as long as the walk waits, with `limit` replies at most.
def goOn (setting : Setting) (audience : Audience m) :
    Nat → Conversation → m (Option (Except Failure Report) × Session)
  | limit, c =>
    match c.report.status, limit with
    | .suspended _ _, 0 => return (none, c.session)
    | .suspended token prompt, limit + 1 => do
      let answer ←
        if patience ≤ c.rejections then pure (.ok .dismiss) else audience.answer prompt
      match answer with
      | .error failure => return (some (.error failure), c.session)
      | .ok answer =>
        let (result, next) := c.reply setting token answer
        audience.hear (next.session.events.drop c.session.events.length)
        match result with
        | .ok () => goOn setting audience limit next
        | .error failure => return (some (.error failure), next.session)
    | _, _ => return (some (.ok c.report), c.session)

end Conversation

namespace Session

variable {m : Type → Type} [Monad m]

-- Starts an invocation and has all its prompts answered. Nothing is reported when more than
-- `limit` replies are needed.
def converse (setting : Setting) (origin : Option String) (audience : Audience m) (limit : Nat)
    (s : Session) : m (Option (Except Failure Report) × Session) := do
  let (result, next) := s.start setting origin
  audience.hear (next.events.drop s.events.length)
  match result with
  | .error failure => return (some (.error failure), next)
  | .ok report => Conversation.goOn setting audience limit ⟨next, report, 0⟩

end Session

end Tabletop
