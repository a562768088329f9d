import Tabletop.Prompt

namespace Tabletop

-- Where a walk stands: the position of the next operation, the bound target, the forks that still
-- owe continuations, and whether the next operation was selected by name.
structure Cursor where
  position : Nat
  target : Option Snapshot
  forks : List Fork
  selected : Bool

namespace Cursor

def onward (c : Cursor) : Cursor :=
  { c with position := c.position + 1, selected := false }

-- The branch is over; `size` is the number of operations.
def ended (size : Nat) (c : Cursor) : Cursor :=
  { c with position := size, selected := false }

-- The branch is over, and the operations behind this one run once for each target.
def forked (size : Nat) (origin : String) (targets : List Snapshot) (c : Cursor) : Cursor :=
  if targets.isEmpty then c.ended size
  else { c.ended size with forks := ⟨origin, c.position + 1, targets, c.target⟩ :: c.forks }

-- The next continuation that a fork owes; the innermost fork comes first.
def nextBranch : List Fork → Option Cursor
  | [] => none
  | ⟨origin, resumeAt, target :: remaining, outerTarget⟩ :: outer =>
    some ⟨resumeAt, some target, ⟨origin, resumeAt, remaining, outerTarget⟩ :: outer, false⟩
  | ⟨_, _, [], _⟩ :: outer => nextBranch outer

-- The target that is bound when no fork owes anything, if any fork gave one back.
def outermost? : List Fork → Option (Option Snapshot)
  | [] => none
  | fork :: outer => some ((outermost? outer).getD fork.outerTarget)

-- The ways in which a walk over `size` operations moves when no answer is given.
inductive Follows (size : Nat) : Cursor → Cursor → Prop where
  | onward {c : Cursor} : c.position < size → Follows size c.onward c
  | ended {c : Cursor} : c.position < size → Follows size (c.ended size) c
  | forked {c : Cursor} (origin : String) (targets : List Snapshot) :
    c.position < size → Follows size (c.forked size origin targets) c
  | branch {c next : Cursor} : size ≤ c.position → nextBranch c.forks = some next →
    Follows size next c

-- All walks from the end of a branch with these forks are finite.
def Ends (size : Nat) (forks : List Fork) : Prop :=
  ∀ c : Cursor, c.forks = forks → size ≤ c.position → Acc (Follows size) c

theorem ends_of_next {size : Nat} {forks : List Fork}
    (h : ∀ next, nextBranch forks = some next → Acc (Follows size) next) : Ends size forks := by
  intro c hforks hpos
  refine Acc.intro c fun next hnext => ?_
  cases hnext with
  | onward hlt => omega
  | ended hlt => omega
  | forked _ _ hlt => omega
  | branch _ hbranch => exact h next (hforks ▸ hbranch)

-- A fork adds its continuations one by one to those that the outer forks owe.
theorem ends_cons {size : Nat} {outer : List Fork} (origin : String) (resumeAt : Nat)
    (outerTarget : Option Snapshot) (houter : Ends size outer)
    (hstart : ∀ forks, Ends size forks → ∀ c : Cursor, c.position = resumeAt → c.forks = forks →
      Acc (Follows size) c) (remaining : List Snapshot) :
    Ends size (⟨origin, resumeAt, remaining, outerTarget⟩ :: outer) := by
  induction remaining with
  | nil =>
    refine ends_of_next fun next hnext => ?_
    exact (houter ⟨size, none, outer, false⟩ rfl (Nat.le_refl _)).inv
      (.branch (Nat.le_refl _) hnext)
  | cons target remaining ih =>
    refine ends_of_next fun next hnext => ?_
    simp only [nextBranch, Option.some.injEq] at hnext
    subst hnext
    exact hstart _ ih _ rfl rfl

-- A branch visits fewer and fewer operations, and forks only into branches that start behind it.
theorem acc_of_ends {size : Nat} (left : Nat) : ∀ (forks : List Fork), Ends size forks →
    ∀ c : Cursor, c.forks = forks → size - c.position ≤ left → Acc (Follows size) c := by
  induction left with
  | zero =>
    intro forks hends c hforks hleft
    exact hends c hforks (by omega)
  | succ left ih =>
    intro forks hends c hforks hleft
    have hended : Acc (Follows size) (c.ended size) := hends _ hforks (Nat.le_refl _)
    refine Acc.intro c fun next hnext => ?_
    cases hnext with
    | onward hlt =>
      refine ih forks hends _ hforks ?_
      simp only [Cursor.onward]
      omega
    | ended hlt => exact hended
    | forked origin targets hlt =>
      simp only [Cursor.forked]
      split
      · exact hended
      · refine ends_cons origin (c.position + 1) c.target (hforks ▸ hends) ?_ targets _ rfl
          (Nat.le_refl _)
        intro forks' hends' c' hpos hforks'
        exact ih forks' hends' c' hforks' (by omega)
    | branch hge hbranch => exact (hends c hforks hge).inv (.branch hge hbranch)

theorem ends (size : Nat) (forks : List Fork) : Ends size forks := by
  induction forks with
  | nil => exact ends_of_next fun _ h => by simp [nextBranch] at h
  | cons fork outer ih =>
    obtain ⟨origin, resumeAt, remaining, outerTarget⟩ := fork
    refine ends_cons origin resumeAt outerTarget ih ?_ remaining
    intro forks hends c _ hforks
    exact acc_of_ends _ forks hends c hforks (Nat.le_refl _)

-- No walk goes on for ever.
theorem follows_wf (size : Nat) : WellFounded (Follows size) :=
  ⟨fun c => acc_of_ends _ c.forks (ends size c.forks) c rfl (Nat.le_refl _)⟩

end Cursor

end Tabletop
