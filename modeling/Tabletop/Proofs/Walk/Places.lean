import Tabletop.Proofs.Walk.Relating

-- The places that a walk comes to, the target that is bound there, and the one that is bound in the
-- end.
namespace Tabletop

namespace Cursor

-- The target that is bound once all forks are done.
def base (c : Cursor) : Option Snapshot := (outermost? c.forks).getD c.target

variable {c next : Cursor} {size : Nat}

theorem base_forked (size : Nat) (origin : String) (targets : List Snapshot) :
    (c.forked size origin targets).base = c.base := by
  unfold forked
  split <;> rfl

theorem outermost?_nextBranch {forks : List Fork} (h : nextBranch forks = some next) :
    outermost? next.forks = outermost? forks := by
  induction forks with
  | nil => cases h
  | cons fork outer ih =>
    obtain ⟨origin, resumeAt, remaining, outerTarget⟩ := fork
    cases remaining with
    | cons target remaining =>
      cases h
      rfl
    | nil =>
      -- A fork that owes nothing more is passed over, and one around it gives a target back.
      rw [ih h, outermost?]
      cases outer with
      | nil => cases h
      | cons fork outer => rfl

theorem base_nextBranch (h : nextBranch c.forks = some next) : next.base = c.base := by
  have hsome : (outermost? c.forks).isSome := by
    cases hforks : c.forks with
    | nil =>
      rw [hforks] at h
      cases h
    | cons => rfl
  rw [base, base, outermost?_nextBranch h]
  obtain ⟨target, htarget⟩ := Option.isSome_iff_exists.1 hsome
  rw [htarget]
  rfl

end Cursor

-- Where a walk stands, with the run as it comes there.
structure Place where
  cursor : Cursor
  run : Run

namespace Run

-- The places of a walk, one after another.
def places (setting : Setting) (plan : Plan) (c : Cursor) (run : Run) : List Place :=
  match run.advance setting plan c with
  | ⟨(.goes c', run'), h⟩ =>
    have : Cursor.Follows plan.order.length c' c := h c' rfl
    ⟨c, run⟩ :: places setting plan c' run'
  | ⟨(.ends, _), _⟩ => [⟨c, run⟩]
  | ⟨(.waits .., _), _⟩ => [⟨c, run⟩]
termination_by (⟨c⟩ : Standing plan.order.length)

variable {setting : Setting} {plan : Plan} {c c' : Cursor} {run run' : Run}

theorem places_of_goes (h : run.next setting plan c = (.goes c', run')) :
    run.places setting plan c = ⟨c, run⟩ :: run'.places setting plan c' := by
  rw [places]
  simp only [advance, h]

theorem places_of_ends (h : run.next setting plan c = (.ends, run')) :
    run.places setting plan c = [⟨c, run⟩] := by
  rw [places]
  simp only [advance, h]

theorem places_of_waits {operation : String} {prompt : Prompt}
    (h : run.next setting plan c = (.waits c' operation prompt, run')) :
    run.places setting plan c = [⟨c, run⟩] := by
  rw [places]
  simp only [advance, h]

-- What holds where a walk begins and goes on to hold from turn to turn holds at all of its places.
theorem forall_places {I : Cursor → Run → Prop}
    (hnext : ∀ c run c' run', I c run → run.next setting plan c = (.goes c', run') → I c' run')
    (h : I c run) : ∀ place ∈ run.places setting plan c, I place.cursor place.run := by
  induction c, run using walk_induction setting plan with
  | goes c run c' run' hturn ih =>
    rw [places_of_goes hturn, List.forall_mem_cons]
    exact ⟨h, ih (hnext c run c' run' h hturn)⟩
  | ends c run run' hturn => simpa [places_of_ends hturn] using h
  | waits c run c' operation prompt run' hturn => simpa [places_of_waits hturn] using h

theorem next_of_end (h : plan.order[c.position]? = none) :
    run.next setting plan c = run.branch c := by
  simp only [next, h]

theorem next_of_order {op : Operation} (h : plan.order[c.position]? = some op) :
    run.next setting plan c =
      (c.after plan.order.length op.id
        ((Visit.mk setting plan op).visit c.targetId c.selected run).1,
        ((Visit.mk setting plan op).visit c.targetId c.selected run).2) := by
  simp only [next, h]

end Run

/-! The bound target -/

-- Whether the records tell the bound target in a way that no visit disturbs, whatever target that
-- is.
structure Plan.Tells (setting : Setting) (plan : Plan)
    (B : Option Snapshot → Records → Prop) : Prop where
  bind : ∀ target (r : Records), B target (r.bind target)
  visits : ∀ op ∈ plan.operations, ∀ target,
    ∃ O, (Visit.mk setting plan op).Within O (.keeping fun s => B target s.records)

-- Whether the records tell the target that belongs to a turn.
def Turn.Told (B : Option Snapshot → Records → Prop) (base : Option Snapshot) (r : Records) :
    Turn → Prop
  | .goes c => B c.target r ∧ c.base = base
  | .ends => B base r
  | .waits c _ _ => B c.target r ∧ c.base = base

theorem Cursor.told_after {B : Option Snapshot → Records → Prop} {size : Nat} {operation : String}
    {c : Cursor} {r : Records} (h : B c.target r) (move : Move) :
    (c.after size operation move).Told B c.base r := by
  cases move with
  | onward | ended | waiting => exact ⟨h, rfl⟩
  | forked targets =>
    refine ⟨?_, base_forked size operation targets⟩
    unfold forked
    split <;> exact h

namespace Plan.Tells

variable {setting : Setting} {plan : Plan} {B : Option Snapshot → Records → Prop}

theorem next (hB : plan.Tells setting B) {c : Cursor} {run : Run} (h : B c.target run.records) :
    (run.next setting plan c).1.Told B c.base (run.next setting plan c).2.records := by
  cases hop : plan.order[c.position]? with
  | some op =>
    obtain ⟨O, hwithin⟩ :=
      hB.visits op (List.mem_mergeSort.1 (List.mem_of_getElem? hop)) c.target
    rw [Run.next_of_order hop]
    exact Cursor.told_after ((hwithin.relates c.targetId).visit c.selected run h) _
  | none =>
    rw [Run.next_of_end hop, Run.branch]
    split
    · next hbranch => exact ⟨hB.bind _ _, Cursor.base_nextBranch hbranch⟩
    · next hbranch =>
      split
      · next houtermost =>
        rw [Cursor.base, houtermost]
        exact hB.bind _ _
      · next houtermost =>
        rw [Cursor.base, houtermost]
        exact h

theorem places (hB : plan.Tells setting B) {c : Cursor} {run : Run} (h : B c.target run.records) :
    ∀ place ∈ run.places setting plan c, B place.cursor.target place.run.records := by
  refine Run.forall_places (I := fun c run => B c.target run.records) ?_ h
  intro c run c' run' h hturn
  have htold := hB.next (c := c) h
  rw [hturn] at htold
  exact htold.1

-- A walk that is over leaves the target bound that was to be bound in the end. One that waits
-- leaves that of the operation that waits.
theorem walk (hB : plan.Tells setting B) {c : Cursor} {run : Run} (h : B c.target run.records) :
    ((run.walk setting plan c).1 = none → B c.base (run.walk setting plan c).2.records) ∧
    ∀ w, (run.walk setting plan c).1 = some w →
      B w.cursor.target (run.walk setting plan c).2.records ∧ w.cursor.base = c.base := by
  induction c, run using Run.walk_induction setting plan with
  | goes c run c' run' hturn ih =>
    have htold := hB.next (c := c) h
    rw [hturn] at htold
    obtain ⟨hbound, hbase⟩ := htold
    rw [← hbase]
    exact ih hbound
  | ends c run run' hturn =>
    have htold := hB.next (c := c) h
    rw [hturn] at htold
    exact ⟨fun _ => htold, fun w hw => nomatch hw⟩
  | waits c run c' operation prompt run' hturn =>
    have htold := hB.next (c := c) h
    rw [hturn] at htold
    refine ⟨fun hw => (nomatch hw), fun w hw => ?_⟩
    cases hw
    exact htold

-- An answer leaves the target of its operation bound, wherever it leads.
theorem answered (hB : plan.Tells setting B) {op : Operation} (hop : op ∈ plan.operations)
    {c : Cursor} {answer : Answer} {run run' : Run} {result : Except Failure Turn}
    (h : B c.target run.records)
    (hanswered : Session.answered ⟨setting, plan, op⟩ c answer run = (result, run')) :
    B c.target run'.records ∧ ∀ turn, result = .ok turn → turn.Told B c.base run'.records := by
  obtain ⟨O, hwithin⟩ := hB.visits op hop c.target
  have hkept := (hwithin.relates c.targetId).answered answer run h
  rw [hanswered] at hkept
  refine ⟨hkept, fun turn hturn => ?_⟩
  rw [Recursion.answered_eq_reply] at hanswered
  generalize Recursion.reply ⟨setting, plan, op⟩ c.targetId answer run = replied at hanswered
  obtain ⟨way, run''⟩ := replied
  cases way with
  | error failure =>
    cases hanswered
    cases hturn
  | ok way =>
    cases hanswered
    cases hturn
    cases way with
    | move move => exact Cursor.told_after hkept move
    | jump position => exact ⟨hkept, rfl⟩

end Plan.Tells

end Tabletop
