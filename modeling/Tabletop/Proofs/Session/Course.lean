import Tabletop.Proofs.Archive
import Tabletop.Proofs.Session.Calls

-- What a host does with a session over time.
namespace Tabletop.Session

-- One thing that a host can do. What is done with the world and the dice elsewhere is left open.
inductive Deed where
  | call (setting : Setting) (c : Call)
  | reset (trigger : ResetTrigger)
  | clearPending
  | reload (savedAt : Timestamp)
  | meanwhile (world : World) (dice : Dice)

-- The activity that was saved is loaded again; one that cannot be loaded stays in memory. Goals about
-- it are not to be settled by reading the document symbol by symbol.
@[irreducible] def reload (savedAt : Timestamp) (s : Session) : Session :=
  match Archive.decode (Archive.encode savedAt s.activity) with
  | .ok activity => { s with activity }
  | .error _ => s

theorem reload_cases (savedAt : Timestamp) (s : Session) :
    s.reload savedAt = s ∨ ∃ activity,
      Archive.decode (Archive.encode savedAt s.activity) = .ok activity ∧
        s.reload savedAt = { s with activity } := by
  unfold reload
  generalize Archive.decode (Archive.encode savedAt s.activity) = loaded
  cases loaded with
  | error failure => exact .inl rfl
  | ok activity => exact .inr ⟨activity, rfl, rfl⟩

def perform (s : Session) : Deed → Session
  | .call setting c => (s.call setting c).2
  | .reset trigger => { s with activity := (s.activity.resetResources trigger).2 }
  | .clearPending => { s with activity := s.activity.clearPending.2 }
  | .reload savedAt => s.reload savedAt
  | .meanwhile world dice => { s with world, dice }

-- What a session comes to by deeds of some kind, one after another.
inductive Course (may : Session → Deed → Prop) (s : Session) : Session → Prop where
  | here : Course may s s
  | next {t : Session} (d : Deed) : may t d → Course may s t → Course may s (t.perform d)

variable {may : Session → Deed → Prop} {s t : Session}

-- What every deed of the kind keeps, the course keeps.
theorem Course.keeps {P : Session → Prop} (hP : ∀ t d, may t d → P t → P (t.perform d))
    (h : Course may s t) (hs : P s) : P t := by
  induction h with
  | here => exact hs
  | next d hmay _ ih => exact hP _ d hmay ih

end Tabletop.Session
