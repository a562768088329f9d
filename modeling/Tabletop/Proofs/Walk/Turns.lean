import Tabletop.Walk

-- A walk turn by turn.
namespace Tabletop.Run

variable {setting : Setting} {plan : Plan} {c : Cursor} {run : Run}

theorem walk_of_goes {c' : Cursor} {run' : Run}
    (h : run.next setting plan c = (.goes c', run')) :
    run.walk setting plan c = run'.walk setting plan c' := by
  rw [walk]
  simp only [advance, h]

theorem walk_of_ends {run' : Run} (h : run.next setting plan c = (.ends, run')) :
    run.walk setting plan c = (none, run') := by
  rw [walk]
  simp only [advance, h]

theorem walk_of_waits {c' : Cursor} {operation : String} {prompt : Prompt} {run' : Run}
    (h : run.next setting plan c = (.waits c' operation prompt, run')) :
    run.walk setting plan c = (some ⟨c', operation, prompt⟩, run') := by
  rw [walk]
  simp only [advance, h]

-- What holds of the last turn of a walk, and of a walk if it holds from the second turn on, holds
-- of all walks.
theorem walk_induction (setting : Setting) (plan : Plan)
    {motive : Cursor → Run → Option Wait × Run → Prop}
    (goes : ∀ c run c' run', run.next setting plan c = (.goes c', run') →
      motive c' run' (run'.walk setting plan c') → motive c run (run'.walk setting plan c'))
    (ends : ∀ c run run', run.next setting plan c = (.ends, run') → motive c run (none, run'))
    (waits : ∀ c run c' operation prompt run',
      run.next setting plan c = (.waits c' operation prompt, run') →
      motive c run (some ⟨c', operation, prompt⟩, run'))
    (c : Cursor) (run : Run) : motive c run (run.walk setting plan c) := by
  induction c using (Cursor.follows_wf plan.order.length).induction generalizing run with
  | _ c ih =>
    match h : run.next setting plan c with
    | (.goes c', run') =>
      have hsmaller : Cursor.Follows plan.order.length c' c := next_follows (by rw [h])
      rw [walk_of_goes h]
      exact goes c run c' run' h (ih c' hsmaller run')
    | (.ends, run') => exact walk_of_ends h ▸ ends c run run' h
    | (.waits c' operation prompt, run') =>
      exact walk_of_waits h ▸ waits c run c' operation prompt run' h

theorem next_of_visit {op : Operation} {move : Move} {run' : Run}
    (hop : plan.order[c.position]? = some op)
    (hvisit : (Visit.mk setting plan op).visit c.targetId c.selected run = (move, run')) :
    run.next setting plan c = (c.after plan.order.length op.id move, run') := by
  simp only [next, hop, hvisit]

-- A branch that is over outside of all forks leaves nothing to do.
theorem walk_ended (setting : Setting) (plan : Plan) (target : Option Snapshot) (selected : Bool)
    (run : Run) :
    run.walk setting plan ⟨plan.order.length, target, [], selected⟩ = (none, run) := by
  refine walk_of_ends ?_
  simp [next, branch, Cursor.nextBranch, Cursor.outermost?]

-- What comes of operations that all lead on, one after another.
def pass? (setting : Setting) (plan : Plan) : List Operation → Run → Option Run
  | [], run => some run
  | op :: rest, run =>
    match (Visit.mk setting plan op).visit none false run with
    | (.onward, run) => pass? setting plan rest run
    | _ => none

theorem walk_of_pass? {run' : Run} {position : Nat}
    (h : pass? setting plan (plan.order.drop position) run = some run') :
    run.walk setting plan ⟨position, none, [], false⟩ = (none, run') := by
  generalize hrest : plan.order.drop position = rest at h
  induction rest generalizing position run with
  | nil =>
    cases h
    refine walk_of_ends ?_
    have hnone : plan.order[position]? = none := by
      rw [← List.head?_drop, hrest]
      rfl
    simp [next, hnone, branch, Cursor.nextBranch, Cursor.outermost?]
  | cons op rest ih =>
    have hop : plan.order[position]? = some op := by
      rw [← List.head?_drop, hrest]
      rfl
    have htail : plan.order.drop (position + 1) = rest := by
      rw [← List.tail_drop, hrest]
      rfl
    rw [pass?] at h
    split at h
    · next run'' hvisit =>
      have hgoes := next_of_visit (c := ⟨position, none, [], false⟩) hop hvisit
      exact (walk_of_goes hgoes).trans (ih htail h)
    · cases h

-- An operation that waits is the one at the cursor.
theorem next_waits {c' : Cursor} {operation : String} {prompt : Prompt} {run' : Run}
    (h : run.next setting plan c = (.waits c' operation prompt, run')) :
    ∃ op, plan.order[c'.position]? = some op ∧ op.id = operation := by
  simp only [next] at h
  split at h
  · next op hop =>
    generalize (Visit.mk setting plan op).visit c.targetId c.selected run = moved at h
    obtain ⟨move, run''⟩ := moved
    cases move <;> cases h
    exact ⟨op, hop, rfl⟩
  · simp only [branch] at h
    split at h
    · cases h
    · split at h <;> cases h

theorem walk_waits (setting : Setting) (plan : Plan) (c : Cursor) (run : Run) :
    ∀ w, (run.walk setting plan c).1 = some w →
      ∃ op, plan.order[w.cursor.position]? = some op ∧ op.id = w.operation := by
  induction c, run using walk_induction setting plan with
  | goes c run c' run' _ ih => exact ih
  | ends c run run' _ => intro w hw; cases hw
  | waits c run c' operation prompt run' h =>
    intro w hw
    cases hw
    exact next_waits h

end Tabletop.Run
