import Mathlib.Data.List.Nodup
import Tabletop.Proofs.Dict
import Tabletop.Proofs.Walk.Cost
import Tabletop.Proofs.Walk.Turns

-- Charges among the events of a walk: at most one for each operation, and before it starts.
namespace Tabletop

namespace Event

def Charges (operation : String) : Event → Bool
  | .costCharged id .. => id == operation
  | _ => false

-- Whether an event neither charges for an operation nor starts one.
def IsQuiet : Event → Prop
  | .costCharged .. => False
  | .operationStarted .. => False
  | _ => True

theorem IsTold.isQuiet {operation : String} {e : Event} (h : e.IsTold operation) : e.IsQuiet := by
  cases e <;> trivial

theorem IsQuiet.charges {e : Event} (h : e.IsQuiet) (operation : String) :
    e.Charges operation = false := by
  cases e <;> first | rfl | cases h

end Event

-- Whether an operation with this id has costs.
def Plan.Priced (plan : Plan) (id : String) : Prop :=
  ∃ op ∈ plan.operations, op.id = id ∧ op.costs.isFree = false

namespace Activity

-- Whether an operation with this id was left waiting.
def Awaits (a : Activity) (id : String) : Prop := ∃ p, a.pending = some p ∧ p.operation = id

-- Whether an operation with this id must be charged for before it starts. One that was left waiting
-- has started before.
def Owes (a : Activity) (id : String) : Prop := a.toPlan.Priced id ∧ ¬ a.Awaits id

end Activity

-- Events since an activity was opened, with the operations that are charged for after them. None is
-- charged for twice, and none that is owed for starts before it was charged for.
inductive Billed (a : Activity) : List Event → Names → Prop where
  | opened : Billed a [] a.charged
  | quiet {events : List Event} {charged : Names} {e : Event} :
    Billed a events charged → e.IsQuiet → Billed a (events ++ [e]) charged
  | charged {events : List Event} {charged : Names} {id : String} (pool : String)
    (points breath : Binary64) :
    Billed a events charged → Dict.contains charged id = false →
    Billed a (events ++ [.costCharged id pool points breath]) (charged.add id)
  | started {events : List Event} {charged : Names} {id : String} (kind : String)
    (target : Option String) :
    Billed a events charged → (a.Owes id → Dict.contains charged id = true) →
    Billed a (events ++ [.operationStarted id kind target]) charged

-- What comes before an item of a list that ends with another item.
theorem append_cons_eq_concat {xs before after : List α} {x y : α}
    (h : xs ++ [y] = before ++ x :: after) :
    (xs = before ∧ y = x) ∨ ∃ after', xs = before ++ x :: after' := by
  rcases List.eq_nil_or_concat after with rfl | ⟨after', z, rfl⟩
  · exact .inl ((List.append_inj' h rfl).imp_right fun h => (List.cons.inj h).1)
  · rw [List.concat_eq_append, ← List.cons_append, ← List.append_assoc] at h
    exact .inr ⟨after', (List.append_inj' h rfl).1⟩

namespace Billed

variable {a : Activity} {events : List Event} {charged : Names} {id : String}

theorem quiets {more : List Event} (h : Billed a events charged)
    (hmore : ∀ e ∈ more, e.IsQuiet) : Billed a (events ++ more) charged := by
  induction more generalizing events with
  | nil => simpa using h
  | cons e more ih =>
    rw [List.forall_mem_cons] at hmore
    simpa using ih (h.quiet hmore.1) hmore.2

-- An operation is charged for once if it is a new one among the charged ones, and otherwise never.
theorem count_charges (h : Billed a events charged) (id : String) :
    (if Dict.contains a.charged id then 1 else 0) + events.countP (Event.Charges id) =
      if Dict.contains charged id then 1 else 0 := by
  induction h with
  | opened => simp
  | quiet _ hquiet ih => simp [ih, hquiet.charges]
  | @charged events charged other pool points breath _ hnew ih =>
    rw [List.countP_append, ← Nat.add_assoc, ih, Names.add, Dict.contains_insert]
    by_cases hid : id = other
    · subst hid
      simp [Event.Charges, hnew]
    · simp [Event.Charges, hid, Ne.symm hid]
  | started _ _ _ _ ih => simp [ih, Event.Charges]

theorem count_charges_le (h : Billed a events charged) (id : String) :
    events.countP (Event.Charges id) ≤ 1 := by
  have hcount := h.count_charges id
  split at hcount <;> split at hcount <;> omega

-- The one charge comes before every start. Only a start that comes last says anything new.
theorem charged_before (h : Billed a events charged) (howes : a.Owes id)
    (hnew : Dict.contains a.charged id = false) {before after : List Event} {kind : String}
    {target : Option String}
    (hsplit : events = before ++ .operationStarted id kind target :: after) :
    before.countP (Event.Charges id) = 1 := by
  induction h generalizing before after with
  | opened => simp at hsplit
  | quiet _ hquiet ih =>
    obtain ⟨-, rfl⟩ | ⟨after', hsplit⟩ := append_cons_eq_concat hsplit
    · cases hquiet
    · exact ih hsplit
  | charged _ _ _ _ _ ih =>
    obtain ⟨-, hlast⟩ | ⟨after', hsplit⟩ := append_cons_eq_concat hsplit
    · cases hlast
    · exact ih hsplit
  | started _ _ h hcharged ih =>
    obtain ⟨rfl, hlast⟩ | ⟨after', hsplit⟩ := append_cons_eq_concat hsplit
    · cases hlast
      simpa [hnew, hcharged howes] using h.count_charges id
    · exact ih hsplit

end Billed

-- Whether this is so of the events since earlier ones.
def BilledSince (a : Activity) (earlier events : List Event) (charged : Names) : Prop :=
  ∃ later, events = earlier ++ later ∧ Billed a later charged

namespace BilledSince

variable {a : Activity} {earlier events more : List Event} {charged : Names} {id : String}

theorem quiets (h : BilledSince a earlier events charged) (hmore : ∀ e ∈ more, e.IsQuiet) :
    BilledSince a earlier (events ++ more) charged := by
  obtain ⟨later, rfl, h⟩ := h
  exact ⟨later ++ more, List.append_assoc .., h.quiets hmore⟩

theorem charge (h : BilledSince a earlier events charged) (pool : String)
    (points breath : Binary64) (hnew : Dict.contains charged id = false) :
    BilledSince a earlier (events ++ [.costCharged id pool points breath]) (charged.add id) := by
  obtain ⟨later, rfl, h⟩ := h
  exact ⟨_, List.append_assoc .., h.charged pool points breath hnew⟩

theorem start (h : BilledSince a earlier events charged) (kind : String)
    (target : Option String) (hcharged : a.Owes id → Dict.contains charged id = true) :
    BilledSince a earlier (events ++ [.operationStarted id kind target]) charged := by
  obtain ⟨later, rfl, h⟩ := h
  exact ⟨_, List.append_assoc .., h.started kind target hcharged⟩

end BilledSince

namespace Run

-- Whether a run went on without a charge or a start.
def Quietly (run run' : Run) : Prop :=
  run'.charged = run.charged ∧ ∃ more, run'.events = run.events ++ more ∧ ∀ e ∈ more, e.IsQuiet

variable {run run' run'' : Run}

theorem Quietly.refl (run : Run) : run.Quietly run := ⟨rfl, [], by simp, by simp⟩

theorem Quietly.trans (h : run.Quietly run') (h' : run'.Quietly run'') : run.Quietly run'' := by
  obtain ⟨hcharged, more, hevents, hmore⟩ := h
  obtain ⟨hcharged', more', hevents', hmore'⟩ := h'
  refine ⟨hcharged'.trans hcharged, more ++ more', ?_, fun e he => ?_⟩
  · rw [hevents', hevents, List.append_assoc]
  · exact (List.mem_append.1 he).elim (hmore e) (hmore' e)

theorem quietly_act {operation : String} {a : Act α} {F : Stage → Failure → Prop}
    (ha : a.Does (.telling operation) F) (run : Run) : run.Quietly (run.act a).2 := by
  obtain ⟨told, hevents, htold⟩ := (ha run.toStage).1
  exact ⟨rfl, told, hevents, fun e he => (htold e he).isQuiet⟩

end Run

namespace Visit

open Run

variable {v : Visit} {run run' : Run}

theorem quietly_halt (v : Visit) (target : Option String) (kind : FailureKind) (reason : String)
    (run : Run) : run.Quietly (v.halt target kind reason run) :=
  ⟨rfl, _, rfl, by simp [Event.IsQuiet]⟩

theorem quietly_skip (v : Visit) (target : Option String) (reason : String) (run : Run) :
    run.Quietly (v.skip target reason run) :=
  ⟨rfl, _, rfl, by simp [Event.IsQuiet]⟩

theorem quietly_complete (v : Visit) (target : Option String) (outcome : Outcome) (run : Run) :
    run.Quietly (v.complete target outcome run) :=
  ⟨rfl, _, rfl, by simp [Event.IsQuiet]⟩

theorem quietly_toggle (v : Visit) (run : Run) : run.Quietly (run.act v.toggle).2 :=
  quietly_act (does_toggle (F := fun _ _ => True) v.toggles_telling) run

theorem quietly_begin (v : Visit) (run : Run) : run.Quietly (run.act v.begin).2 :=
  quietly_act (does_begin v.changes_telling v.failures_true) run

theorem quietly_accept (v : Visit) (answer : Answer) (run : Run) :
    run.Quietly (run.act (v.accept answer)).2 :=
  quietly_act (does_accept v.changes_telling v.failures_true (fun _ _ => trivial)
    (fun _ => trivial) answer) run

theorem quietly_settle (v : Visit) (target : Option String) (outcome : Except Failure Outcome)
    (run : Run) : run.Quietly (v.settle target outcome run).2 := by
  cases outcome with
  | error failure => exact v.quietly_halt _ _ _ run
  | ok outcome =>
    refine (v.quietly_complete target outcome run).trans ?_
    dsimp only [settle]
    cases outcome.result with
    | success => exact v.quietly_toggle _
    | halted reason => exact v.quietly_halt _ _ _ _
    | forked targets =>
      refine (v.quietly_toggle _).trans ⟨rfl, _, rfl, by simp [Event.IsQuiet]⟩
    | suspended prompt => exact .refl _

end Visit

-- With unique ids, an operation that costs nothing shares its id with no other one.
theorem Plan.not_priced {plan : Plan} (hids : (plan.operations.map Operation.id).Nodup)
    {op : Operation} (hop : op ∈ plan.operations) (hfree : op.costs.isFree = true) :
    ¬ plan.Priced op.id := by
  rintro ⟨other, hother, hid, hcosts⟩
  obtain rfl : other = op := List.inj_on_of_nodup_map hids hother hop hid
  rw [hfree] at hcosts
  cases hcosts

namespace Run

-- Whether the events of a run since earlier ones are billed.
def IsBilled (a : Activity) (earlier : List Event) (run : Run) : Prop :=
  BilledSince a earlier run.events run.charged

-- Whether the operation with this id is charged for, if it is owed for.
def Covers (a : Activity) (id : String) (run : Run) : Prop :=
  a.Owes id → Dict.contains run.charged id = true

variable {a : Activity} {earlier : List Event} {run run' : Run} {id : String}

theorem Quietly.isBilled (h : run.Quietly run') (hrun : run.IsBilled a earlier) :
    run'.IsBilled a earlier := by
  obtain ⟨hcharged, more, hevents, hmore⟩ := h
  rw [IsBilled, hcharged, hevents]
  exact hrun.quiets hmore

theorem Quietly.covers (h : run.Quietly run') (hrun : run.Covers a id) : run'.Covers a id := by
  rw [Covers, h.1]
  exact hrun

end Run

namespace Visit

variable {a : Activity} {v : Visit} {earlier : List Event} {run : Run}

theorem isBilled_announceStart (target : Option String) (hrun : run.IsBilled a earlier)
    (hcovers : run.Covers a v.op.id) : (v.announceStart target run).IsBilled a earlier :=
  hrun.start v.op.kind.name target hcovers

-- Where costs apply, an operation that may start was charged for.
theorem isBilled_charge (hcosts : v.setting.costsApply = true)
    (hids : (a.operations.map Operation.id).Nodup) (hop : v.op ∈ a.operations)
    (hrun : run.IsBilled a earlier) :
    (v.charge run).2.IsBilled a earlier ∧
      ((v.charge run).1 = .ok () → (v.charge run).2.Covers a v.op.id) := by
  have hcharging := v.charging run
  generalize v.charge run = charged at hcharging
  cases hcharging with
  | waived hwaived =>
    refine ⟨hrun, fun _ howes => ?_⟩
    rcases hwaived with hnever | hfree | hcharged
    · simp [hcosts] at hnever
    · exact absurd howes.1 (Plan.not_priced hids hop hfree)
    · exact hcharged
  | @paid actor points breath changes stage hnew hpaid =>
    obtain ⟨told, hevents, htold⟩ := hpaid.events
    refine ⟨?_, fun _ _ => by simp [Names.add]⟩
    rw [Run.IsBilled]
    dsimp only
    rw [hevents]
    exact (hrun.quiets fun e he => (htold e he).isQuiet).charge _ _ _ hnew
  | @refused failure stage hasides =>
    obtain ⟨-, -, -, told, hevents, htold⟩ := hasides
    refine ⟨?_, fun h => nomatch h⟩
    rw [Run.IsBilled]
    dsimp only
    rw [hevents]
    exact hrun.quiets fun e he => (htold e he).isQuiet

theorem isBilled_visit (hcosts : v.setting.costsApply = true)
    (hids : (a.operations.map Operation.id).Nodup) (hop : v.op ∈ a.operations)
    (target : Option String) (selected : Bool) (hrun : run.IsBilled a earlier) :
    (v.visit target selected run).2.IsBilled a earlier ∧
      ∀ prompt, (v.visit target selected run).1 = .waiting prompt →
        (v.visit target selected run).2.Covers a v.op.id := by
  unfold visit
  split
  · exact ⟨hrun, fun _ h => nomatch h⟩
  · split
    · exact ⟨(v.quietly_skip _ _ run).isBilled hrun, fun _ h => nomatch h⟩
    · obtain ⟨hbilled, hcovers⟩ := isBilled_charge hcosts hids hop hrun
      split
      · next failure run' hcharge =>
        rw [hcharge] at hbilled
        exact ⟨(v.quietly_halt _ _ _ run').isBilled hbilled, fun _ h => nomatch h⟩
      · next run' hcharge =>
        rw [hcharge] at hbilled hcovers
        have hquietly := (v.quietly_begin (v.announceStart target run')).trans
          (v.quietly_settle target ((v.announceStart target run').act v.begin).1 _)
        exact ⟨hquietly.isBilled (isBilled_announceStart target hbilled (hcovers rfl)),
          fun _ _ => hquietly.covers (hcovers rfl)⟩

end Visit

namespace Run

variable {setting : Setting} {a : Activity} {earlier : List Event} {c : Cursor} {run : Run}

theorem isBilled_next (hcosts : setting.costsApply = true)
    (hids : (a.operations.map Operation.id).Nodup) (hrun : run.IsBilled a earlier) :
    (run.next setting a.toPlan c).2.IsBilled a earlier ∧
      ∀ c' operation prompt, (run.next setting a.toPlan c).1 = .waits c' operation prompt →
        (run.next setting a.toPlan c).2.Covers a operation := by
  unfold next
  split
  · next op hop =>
    have hmem : op ∈ a.operations := List.mem_mergeSort.1 (List.mem_of_getElem? hop)
    obtain ⟨hbilled, hcovers⟩ := Visit.isBilled_visit (v := ⟨setting, a.toPlan, op⟩) hcosts hids
      hmem c.targetId c.selected hrun
    generalize (Visit.mk setting a.toPlan op).visit c.targetId c.selected run = moved
      at hbilled hcovers
    obtain ⟨move, run'⟩ := moved
    refine ⟨hbilled, fun c' operation prompt h => ?_⟩
    cases move with
    | waiting _ =>
      cases h
      exact hcovers _ rfl
    | _ => cases h
  · unfold branch
    split
    · exact ⟨hrun, fun _ _ _ h => nomatch h⟩
    · split
      · exact ⟨hrun, fun _ _ _ h => nomatch h⟩
      · exact ⟨hrun, fun _ _ _ h => nomatch h⟩

-- What waits at the end of a walk was charged for.
theorem isBilled_walk (hcosts : setting.costsApply = true)
    (hids : (a.operations.map Operation.id).Nodup) (c : Cursor) (run : Run)
    (hrun : run.IsBilled a earlier) :
    (run.walk setting a.toPlan c).2.IsBilled a earlier ∧
      ∀ w, (run.walk setting a.toPlan c).1 = some w →
        (run.walk setting a.toPlan c).2.Covers a w.operation := by
  induction c, run using walk_induction setting a.toPlan with
  | goes c run c' run' hnext ih =>
    have hbilled := (isBilled_next (c := c) hcosts hids hrun).1
    rw [hnext] at hbilled
    exact ih hbilled
  | ends c run run' hnext =>
    have hbilled := (isBilled_next (c := c) hcosts hids hrun).1
    rw [hnext] at hbilled
    exact ⟨hbilled, fun w hw => nomatch hw⟩
  | waits c run c' operation prompt run' hnext =>
    obtain ⟨hbilled, hcovers⟩ := isBilled_next (c := c) hcosts hids hrun
    rw [hnext] at hbilled hcovers
    refine ⟨hbilled, fun w hw => ?_⟩
    cases hw
    exact hcovers c' operation prompt rfl

end Run

end Tabletop
