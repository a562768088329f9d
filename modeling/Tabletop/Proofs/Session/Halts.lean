import Tabletop.Proofs.Session.Targets
import Tabletop.Proofs.Walk.Halts

-- What the validation of an activity is worth to its runs: how the activity was authored ends a
-- branch only where a value is not there yet.
namespace Tabletop

-- Whether the operation of a stop halts once at most, and for how it was authored only at a miss.
def Stop.Halting (setting : Setting) (plan : Plan) (stop : Stop) : Prop :=
  stop.op ∈ plan.operations ∧
    (Visit.mk setting plan stop.op).Halting stop.cursor.targetId (Visit.mk setting plan stop.op).Miss
      stop.before stop.after

namespace Session

variable {setting : Setting} {s t : Session}

-- A message that tells of an operation after it.
def tell : Operation := { id := "tell", kind := .message "Doomed to #fate" }

end Session

end Tabletop
