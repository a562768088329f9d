import Tabletop.Document.Entity
import Tabletop.Document.Rules

namespace Tabletop

open Document

-- The entities that an activity runs against, and the encounter they are in.
structure Scenario where
  entities : List Entity
  combat : Option Combat

namespace Scenario

def read : Reader Scenario := record do
  let entities ← need "entities" (list Entity.read)
  let combat ← maybe "combat" Combat.read
  return { entities, combat }

-- An encounter shows only where there is one.
def toJson (s : Scenario) : Json := .record (
  ("entities", .arr (s.entities.map Entity.toJson)) ::
  s.combat.toList.map fun c => ("combat", c.toJson))

end Scenario

end Tabletop
