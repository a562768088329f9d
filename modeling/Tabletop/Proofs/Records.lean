import Tabletop.Document.Entity
import Tabletop.Proofs.Dict

-- The bound target among the records of an activity.
namespace Tabletop.Records

variable {r : Records} {target other : Option Snapshot} {id : String}

theorem find?_bind {k : String} : (r.bind target).find? k =
    if k = targetKey then target.map Snapshot.toJson else r.find? k := by
  cases target <;> simp [bind]

theorem bind_bind : (r.bind other).bind target = r.bind target := by
  refine Dict.eq_of_find?_eq fun k => ?_
  by_cases hk : k = targetKey <;> simp [find?_bind, hk]

-- Whether the records say that this is the bound target.
def Bound (target : Option Snapshot) (r : Records) : Prop :=
  r.find? targetKey = target.map Snapshot.toJson

theorem bound_bind : Bound target (r.bind target) := by
  simp [Bound, find?_bind]

theorem Bound.bind_eq (h : Bound target r) : r.bind target = r := by
  refine Dict.eq_of_find?_eq fun k => ?_
  by_cases hk : k = targetKey
  · subst hk
    simpa [find?_bind] using h.symm
  · simp [find?_bind, hk]

-- Records of operations and resources leave the bound target alone, for none of them has its key.
theorem Bound.insert (h : Bound target r) (hid : id ≠ targetKey) (value : Json) :
    Bound target (Dict.insert r id value) := by
  simpa [Bound, Ne.symm hid] using h

theorem Bound.setValue (h : Bound target r) (hid : id ≠ targetKey) (value : Json) :
    Bound target (r.setValue id value) :=
  h.insert hid _

end Tabletop.Records
