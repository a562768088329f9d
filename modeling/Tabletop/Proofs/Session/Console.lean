import Tabletop.Proofs.Session.Calls
import Tabletop.Proofs.Step.Automatic
import Tabletop.Proofs.Step.References
import Tabletop.Proofs.Text.Digits
import Tabletop.Reply

-- What a line that is typed at the console picks among the entries of a question. The console
-- counts the entries from one, and hands what it cannot count to the operation, which counts them
-- from zero.
namespace Tabletop

namespace Text

end Text

namespace OptionEntry

-- What comes of a question when this entry is chosen. An entry without a value counts as its
-- label.
def outcome (entry : OptionEntry) : Outcome :=
  .success ("chose " ++ entry.label)
    (some (if entry.value.isNull then .str entry.label else entry.value))
    [("label", .str entry.label)]

end OptionEntry

namespace Prompt

section

variable {p : Prompt} {options : List OptionEntry} {entry : OptionEntry} {line : String} {i : Nat}
  (hkind : p.kind = .select (options.mapIdx fun i o => ⟨toString i, o.label⟩))

include hkind

end

end Prompt

namespace Visit

variable {v : Visit} {options : List OptionEntry} {title : Option String} {entry : OptionEntry}
  {typed line : String} {i : Nat} {p : Prompt}

-- Whether an operation takes an answer for the choice of an entry, at any stage.
def Selects (v : Visit) (answer : Answer) (entry : OptionEntry) : Prop :=
  ∀ s : Stage, (v.accept answer).run s = (.ok (entry.outcome, entry.continueFrom), s)

section

variable (hkind : v.op.kind = .selectOption options title)

include hkind

variable (hposes : v.Poses p.kind)

include hposes

end

end Visit

namespace Session

section

variable {setting : Setting} {s : Session} {p : Pending} {op : Operation} {answer : Answer}
  (hp : s.activity.pending = some p) (hop : waiting? s.activity.toPlan p = some op)

include hp hop

end

def paths : List OptionEntry := [⟨"Left", .null, none⟩, ⟨"Right", .null, none⟩]

end Session

end Tabletop
