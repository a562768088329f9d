import Tabletop.Proofs.Session.Calls
import Tabletop.Proofs.Walk.Places

-- How the records of a session tell the bound target between the calls.
namespace Tabletop

-- Where the operation that waits takes its answer.
def Pending.cursor (p : Pending) : Cursor := ⟨p.position, p.target, p.forks, true⟩

namespace Session

-- Whether the records tell the target of the operation that waits, and `base` is the one that is
-- bound once its forks are done. When nothing waits, the records tell `base`.
def Told (B : Option Snapshot → Records → Prop) (base : Option Snapshot) (s : Session) : Prop :=
  match s.activity.pending with
  | none => B base s.activity.records
  | some p => B p.target s.activity.records ∧ p.cursor.base = base

variable {B : Option Snapshot → Records → Prop} {base : Option Snapshot} {setting : Setting}
  {s : Session} {run : Run}

theorem told_none (hpending : s.activity.pending = none) :
    s.Told B base ↔ B base s.activity.records := by
  simp only [Told, hpending]

theorem told_some {p : Pending} (hp : s.activity.pending = some p) :
    s.Told B base ↔ B p.target s.activity.records ∧ p.cursor.base = base := by
  simp only [Told, hp]

theorem told_close (setting : Setting) (wait : Option Wait) (hpending : s.activity.pending = none)
    (hover : wait = none → B base run.records)
    (hwaits : ∀ w, wait = some w → B w.cursor.target run.records ∧ w.cursor.base = base) :
    (s.close setting wait run).2.Told B base := by
  cases wait with
  | none =>
    have hnone : (s.close setting none run).2.activity.pending = none := hpending
    exact (told_none hnone).2 (hover rfl)
  | some w => exact (told_some rfl).2 (hwaits w rfl)

theorem told_drive (hB : s.activity.toPlan.Tells setting B) (c : Cursor)
    (hpending : s.activity.pending = none) (h : B c.target run.records) :
    (s.drive setting c run).2.Told B c.base := by
  obtain ⟨hover, hwaits⟩ := hB.walk (c := c) h
  exact told_close setting _ hpending hover hwaits

theorem told_proceed (hB : s.activity.toPlan.Tells setting B) (turn : Turn)
    (hpending : s.activity.pending = none) (h : turn.Told B base run.records) :
    (s.proceed setting turn run).2.Told B base := by
  cases turn with
  | goes c =>
    obtain ⟨htarget, rfl⟩ := h
    exact told_drive hB c hpending htarget
  | ends => exact told_close setting none hpending (fun _ => h) fun w hw => nomatch hw
  | waits c operation prompt =>
    refine told_close setting _ hpending (fun hw => nomatch hw) fun w hw => ?_
    cases hw
    exact h

-- A start that is not refused outright binds no target, and none is bound in the end.
theorem told_start (hB : s.activity.toPlan.Tells setting B) (origin : Option String) :
    (s.activity.errors ≠ [] ∧ (s.start setting origin).2 = s) ∨
      (s.activity.errors = [] ∧ (s.start setting origin).2.Told B none) := by
  have hstarting := s.starting setting origin
  generalize s.start setting origin = called at hstarting ⊢
  cases hstarting with
  | invalid herrors => exact .inl ⟨herrors, rfl⟩
  | unknown herrors => exact .inr ⟨herrors, (told_none rfl).2 (hB.bind none _)⟩
  | @walked position herrors =>
    have hbound : B none s.begun.run.records := hB.bind none s.activity.records
    exact .inr ⟨herrors,
      told_drive (s := s.begun) hB ⟨position, none, [], origin.isSome⟩ rfl hbound⟩

-- The operation that waits finds its target bound again.
theorem told_answered (hB : s.activity.toPlan.Tells setting B) {p : Pending} {op : Operation}
    {answer : Answer} {result : Except Failure Turn}
    (hop : waiting? s.activity.toPlan p = some op)
    (hanswered : answered ⟨setting, s.activity.toPlan, op⟩ p.cursor answer (s.bind p.target).run =
      (result, run)) :
    B p.target run.records ∧ ∀ turn, result = .ok turn → turn.Told B p.cursor.base run.records := by
  have hmem := List.mem_mergeSort.1 (List.mem_of_getElem? (waiting?_eq_some_iff.1 hop).1)
  have hbound : B p.target (s.bind p.target).run.records := hB.bind p.target s.activity.records
  exact hB.answered hmem (c := p.cursor) hbound hanswered

-- An answer leaves the target that is bound in the end as it was.
theorem told_resume (hB : s.activity.toPlan.Tells setting B) (token : String) (answer : Answer)
    (hs : s.Told B base) : (s.resume setting token answer).2.Told B base := by
  have hresuming := s.resuming setting token answer
  generalize s.resume setting token answer = called at hresuming ⊢
  cases hresuming with
  | unasked | unknown | displaced => exact hs
  | @refused p op failure run hp _ hop hanswered =>
    have hkept := told_answered hB hop hanswered
    have hbase := ((told_some hp).1 hs).2
    exact (told_some (s := (s.bind p.target).keep run) hp).2 ⟨hkept.1, hbase⟩
  | @taken p op turn run hp _ hop hanswered =>
    have hturn := (told_answered hB hop hanswered).2 turn rfl
    rw [((told_some hp).1 hs).2] at hturn
    exact told_proceed (s := (s.bind p.target).withoutPending) hB turn rfl hturn

-- Whoever goes on from an operation keeps the target that the records show, also in the end.
theorem told_continueFrom (hB : s.activity.toPlan.Tells setting B) (id : String)
    (h : B s.activity.records.target? s.activity.records) :
    (s.continueFrom setting id).2 = s ∨
      (s.continueFrom setting id).2.Told B s.activity.records.target? := by
  have hcontinuing := s.continuing setting id
  generalize s.continueFrom setting id = called at hcontinuing ⊢
  cases hcontinuing with
  | unknown => exact .inl rfl
  | @walked position =>
    exact .inr (told_drive (s := s.withoutPending) hB
      ⟨position, s.activity.records.target?, [], true⟩ rfl h)

end Session

end Tabletop
