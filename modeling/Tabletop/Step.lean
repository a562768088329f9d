import Tabletop.Step.Actor
import Tabletop.Step.Combat
import Tabletop.Step.Flow
import Tabletop.Step.Resource

namespace Tabletop.Visit

def lift : Except Failure α → Act α
  | .ok a => return a
  | .error failure => throw failure

def begin (v : Visit) : Act Outcome :=
  match v.op.kind with
  | .attack damages apply => v.attack damages apply
  | .check name override difficulty => v.check name override difficulty
  | .test specs => v.test specs
  | .condition conditions proceedAnyway => v.condition conditions proceedAnyway
  | .target appliesTo => v.target appliesTo
  | .use source => v.use source
  | .createResource name maximum negativeAllowed reset =>
    v.createResource name maximum negativeAllowed reset
  | .consumeResource resource amount => v.consumeResource resource amount
  | .heal formula resource recipient components => v.heal formula resource recipient components
  | .consumption restores components recipient => v.consumption restores components recipient
  | .setFlag key value => v.setFlag key value
  | .variable label default min max => return v.askVariable label default min max
  | .travel modifier => v.travel modifier
  | .selectOperation operations title => lift (v.askOperation operations title)
  | .selectOption options title => lift (v.askOption options title)
  | .message text => v.message text

-- Goes on with an operation that was waiting, and tells where the answer leads, if anywhere.
-- Operations that ask nothing are carried out whatever the answer.
def accept (v : Visit) (answer : Answer) : Act (Outcome × Option String) :=
  match v.op.kind with
  | .use _ => return (← v.useRest answer, none)
  | .variable label default min max =>
    return (← lift (v.acceptVariable label default min max answer), none)
  | .selectOperation operations _ => lift (v.acceptOperation operations answer)
  | .selectOption options _ => lift (v.acceptOption options answer)
  | _ => return (← v.begin, none)

end Tabletop.Visit
