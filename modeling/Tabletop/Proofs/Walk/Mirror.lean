import Mathlib.Data.List.Nodup
import Tabletop.Proofs.Ledger
import Tabletop.Proofs.Records.Values
import Tabletop.Proofs.Validation
import Tabletop.Proofs.Walk.Cost

-- A pool of an activity stands in the ledger and, as a value, on record of the operation that made
-- it. Whoever changes one of the two changes the other.
namespace Tabletop

-- A tie between what a pool holds and what is on record of it, made by either way of writing a
-- number.
structure Tie where
  Holds : Binary64 → Option Json → Prop
  number : ∀ x, Holds x (Json.ofNumber x).present?
  real : ∀ x, Holds x (Json.ofReal x).present?

namespace Tie

-- What is finite is read on record.
def reading : Tie where
  Holds x found := x.isFinite = true →
    ∃ j y, found = some j ∧ j.toNumber? = some y ∧ y.same x = true
  number _ := Json.ofNumber_of_isFinite
  real _ := Json.ofReal_of_isFinite

-- What is not finite leaves no value on record.
def blank : Tie where
  Holds x found := x.isFinite = false → found = none
  number _ := Json.ofNumber_of_not_isFinite
  real _ := Json.ofReal_of_not_isFinite

end Tie

-- Whether an operation of the plan makes the pool with this id.
def Plan.Makes (plan : Plan) (id : String) : Prop :=
  ∃ op ∈ plan.operations, Validation.creates id op = true

-- Whether every pool stands under its own id, was made by an operation of the plan, and is tied to
-- the record of this operation.
def Stage.Tied (tie : Tie) (plan : Plan) (s : Stage) : Prop :=
  ∀ id r, Dict.find? s.ledger id = some r →
    r.id = id ∧ plan.Makes id ∧ tie.Holds r.value (s.records.value? id)

theorem Validation.creates_iff {id : String} {op : Operation} : creates id op = true ↔
    op.id = id ∧ ∃ name maximum negativeAllowed reset,
      op.kind = .createResource name maximum negativeAllowed reset := by
  unfold creates
  split
  · next hkind => simp [hkind]
  · next hkind =>
    constructor
    · intro h
      cases h
    · rintro ⟨-, name, maximum, negativeAllowed, reset, hcreates⟩
      exact absurd hcreates (hkind name maximum negativeAllowed reset)

-- Of the operations with different ids only those make pools that are there for it.
theorem Plan.Makes.kind {plan : Plan} {op : Operation}
    (hids : (plan.operations.map Operation.id).Nodup) (hop : op ∈ plan.operations)
    (h : plan.Makes op.id) : ∃ name maximum negativeAllowed reset,
      op.kind = .createResource name maximum negativeAllowed reset := by
  obtain ⟨maker, hmaker, hcreates⟩ := h
  obtain ⟨hid, hkind⟩ := Validation.creates_iff.1 hcreates
  rwa [List.inj_on_of_nodup_map hids hmaker hop hid] at hkind

section

variable {tie : Tie} {plan : Plan} {s t : Stage}

theorem Stage.Tied.of_eq (h : s.Tied tie plan) (hledger : t.ledger = s.ledger)
    (hrecords : t.records = s.records) : t.Tied tie plan := by
  rwa [Stage.Tied, hledger, hrecords]

-- A record is written that belongs to no pool.
theorem Stage.Tied.insert (h : s.Tied tie plan) {id : String} (hid : ¬ plan.Makes id)
    (value : Json) : Stage.Tied tie plan { s with records := Dict.insert s.records id value } := by
  intro k r hfound
  obtain ⟨hkey, hmakes, hholds⟩ := h k r hfound
  have hk : k ≠ id := fun heq => hid (heq ▸ hmakes)
  exact ⟨hkey, hmakes, by rwa [Records.value?_insert_of_ne hk]⟩

-- What is taken from a pool is written on record in one.
theorem Stage.Tied.consume (h : s.Tied tie plan) {id : String} {x left : Binary64}
    {ledger : Ledger} (hconsume : s.ledger.consume id x = .ok (left, ledger)) :
    Stage.Tied tie plan { s with ledger, records := s.records.setValue id (.ofNumber left) } := by
  obtain ⟨old, hold, -, rfl⟩ := Ledger.of_consume hconsume
  intro k r hfound
  rw [Dict.find?_insert] at hfound
  rw [Records.value?_setValue]
  by_cases hk : k = id
  · subst hk
    rw [if_pos rfl] at hfound ⊢
    cases hfound
    obtain ⟨hkey, hmakes, -⟩ := h k old hold
    exact ⟨hkey, hmakes, tie.number left⟩
  · rw [if_neg hk] at hfound ⊢
    exact h k r hfound

end

namespace Visit

open Act

variable {tie : Tie} {v : Visit}

-- An operation that makes no pool writes a record of its own, and otherwise takes from pools at most.
theorem preserves_tied (hmakes : ¬ v.plan.Makes v.op.id)
    (hkind : ∀ name maximum negativeAllowed reset,
      v.op.kind ≠ .createResource name maximum negativeAllowed reset) :
    v.Preserves (Stage.Tied tie v.plan) where
  tells _ _ _ _ h := h.of_eq rfl rfl
  rolls _ _ h := h.of_eq rfl rfl
  updates _ _ _ _ _ _ h := h.of_eq rfl rfl
  toggles _ _ _ _ _ h := h.of_eq rfl rfl
  uses _ _ _ _ _ _ h := h.of_eq rfl rfl
  creates _ _ hcreates _ _ _ := absurd hcreates (hkind _ _ _ _)
  consumes _ _ _ _ _ _ _ _ hconsume h := (h.consume hconsume).of_eq rfl rfl
  events _ _ h := h.of_eq rfl rfl
  own _ value h := h.insert hmakes value

/-! The operation that makes a pool -/

-- What comes of an operation that makes a pool: it fails and leaves ledger and records alone, or it
-- tells the value of a pool that is there then, be it new or not.
inductive Making (v : Visit) (s : Stage) : Except Failure Outcome × Stage → Prop where
  | fails {failure : Failure} {s' : Stage} : s'.ledger = s.ledger → s'.records = s.records →
    Making v s (.error failure, s')
  | tells {outcome : Outcome} {r : Resource} {s' : Stage} : outcome.result = .success →
    outcome.value = some (.ofNumber r.value) → (∀ f ∈ outcome.fields, f.1 ≠ "value") →
    Dict.find? s'.ledger v.op.id = some r →
    s'.ledger = s.ledger ∨ r.id = v.op.id ∧ s'.ledger = Dict.insert s.ledger v.op.id r →
    s'.records = s.records → Making v s (.ok outcome, s')

theorem making {name maximum : String} {negativeAllowed : Bool} {reset : ResetTrigger}
    (hkind : v.op.kind = .createResource name maximum negativeAllowed reset) (s : Stage) :
    v.Making s (v.begin.run s) := by
  have hbegin : v.begin = v.createResource name maximum negativeAllowed reset := by
    rw [begin, hkind]
  have hmaximum : v.Reads maximum := reads_of_kind (by simp [hkind, OperationKind.formulas])
  rw [hbegin, createResource, run_get_bind]
  cases hfound : Dict.find? s.ledger v.op.id with
  | some existing => exact .tells rfl rfl (by simp [Outcome.success]) hfound (.inl rfl) rfl
  | none =>
    dsimp only
    rw [run_bind]
    rcases v.actor_cases s with ⟨failure, hactor⟩ | ⟨actor, -, hactor⟩
    · rw [hactor]
      exact .fails rfl rfl
    · rw [hactor]
      dsimp only
      rw [run_get_bind, run_bind]
      obtain ⟨s', ⟨hrecords, hledger, -⟩, ⟨failure, heval⟩ | ⟨e, heval⟩⟩ :=
        evaluate_cases hmaximum (v.rollData actor s.records) s
      · rw [heval]
        exact .fails hledger hrecords
      · rw [heval]
        have hcreate : (s'.ledger.create ⟨v.op.id, name, maximum, e.total, e.total,
            negativeAllowed, reset⟩).2 = Dict.insert s.ledger v.op.id ⟨v.op.id, name, maximum,
            e.total, e.total, negativeAllowed, reset⟩ := by
          simp [Ledger.create, Dict.contains, hledger, hfound]
        refine .tells rfl rfl (by simp [Outcome.success]) ?_ (.inr ⟨rfl, hcreate⟩) hrecords
        exact (congrArg (Dict.find? · v.op.id) hcreate).trans (by simp)

-- What an operation records under its own id has the value that it leaves.
theorem value?_record {outcome : Outcome} {j : Json} {records : Records} {k : String}
    (hvalue : outcome.value = some j) (hfields : ∀ f ∈ outcome.fields, f.1 ≠ "value") :
    (v.record outcome records).value? k =
      if k = v.op.id then j.present? else records.value? k := by
  rw [← Records.value?_setValue, record, hvalue]
  dsimp only
  split
  · rfl
  · exact Records.value?_merge Records.find?_setValue hfields

-- A pool that is there is tied to the value of it that its operation records. In between the two it
-- need not be.
theorem tied_settle (target : Option String) {result : Except Failure Outcome} {run : Run}
    {s' : Stage} (h : run.toStage.Tied tie v.plan) (hmakes : v.plan.Makes v.op.id)
    (hmaking : v.Making run.toStage (result, s')) :
    (v.settle target result { run with toStage := s' }).2.toStage.Tied tie v.plan := by
  cases hmaking with
  | fails hledger hrecords => exact h.of_eq hledger hrecords
  | @tells outcome r _ hsuccess hvalue hfields hfound hledger hrecords =>
    simp only [settle, follow, hsuccess]
    obtain ⟨hkept, hsame⟩ := v.toggle_keeps (v.complete target outcome { run with toStage := s' })
    refine Stage.Tied.of_eq (s := { s' with records := v.record outcome s'.records }) ?_ hsame hkept
    intro k r' hk
    rw [value?_record hvalue hfields, hrecords]
    by_cases hown : k = v.op.id
    · subst hown
      obtain rfl : r = r' := Option.some.inj (hfound.symm.trans hk)
      rw [if_pos rfl]
      refine ⟨?_, hmakes, tie.number r.value⟩
      rcases hledger with hsame | ⟨hid, -⟩
      · exact (h _ r (hsame ▸ hfound)).1
      · exact hid
    · rw [if_neg hown]
      rcases hledger with hsame | ⟨-, hinsert⟩
      · exact h k r' (hsame ▸ hk)
      · change Dict.find? s'.ledger k = some r' at hk
        rw [hinsert, Dict.find?_insert, if_neg hown] at hk
        exact h k r' hk

-- An operation that makes a pool asks nothing, and does the same when it is answered.
theorem act_accept {name maximum : String} {negativeAllowed : Bool} {reset : ResetTrigger}
    (hkind : v.op.kind = .createResource name maximum negativeAllowed reset) (answer : Answer)
    (run : Run) : run.act (v.accept answer) =
      ((v.begin.run run.toStage).1.map fun outcome => (outcome, none),
        { run with toStage := (v.begin.run run.toStage).2 }) := by
  have haccept : v.accept answer = (do return (← v.begin, none)) := by rw [accept, hkind]
  rw [Run.act, haccept, run_bind]
  rcases v.begin.run run.toStage with ⟨result, s'⟩
  cases result <;> rfl

theorem tied_answered {target : Option String} {result : Except Failure Outcome} {run : Run}
    {s' : Stage} (h : run.toStage.Tied tie v.plan) (hmakes : v.plan.Makes v.op.id)
    (hmaking : v.Making run.toStage (result, s')) :
    (Recursion.answered v target (result.map fun outcome => (outcome, none),
      { run with toStage := s' })).2.toStage.Tied tie v.plan := by
  have hsettled := tied_settle target h hmakes hmaking
  cases result with
  | error failure =>
    cases hmaking with
    | fails hledger hrecords =>
      cases failure <;> exact h.of_eq hledger hrecords
  | ok outcome =>
    have hstays : ∀ moved : Move × Run,
        (Recursion.destined v target none moved).2 = moved.2 := by
      rintro ⟨move, run⟩
      cases move <;> rfl
    rw [← hstays] at hsettled
    exact hsettled

end Visit

-- No visit and no answer unties the pools of the plan.
theorem Visit.conducts_tied {tie : Tie} {v : Visit}
    (hids : (v.plan.operations.map Operation.id).Nodup) (hop : v.op ∈ v.plan.operations)
    (target : Option String) : v.Conducts target fun run run' =>
      run.toStage.Tied tie v.plan → run'.toStage.Tied tie v.plan := by
  by_cases hmakes : v.plan.Makes v.op.id
  · obtain ⟨name, maximum, negativeAllowed, reset, hkind⟩ := hmakes.kind hids hop
    exact
      { refl _ h := h
        trans h h' hs := h' (h hs)
        charges run h := h.of_eq (v.charge_keeps run).2.1 (v.charge_keeps run).1
        starts _ h := h.of_eq rfl rfl
        skips _ _ h := h.of_eq rfl rfl
        halts _ _ _ h := h.of_eq rfl rfl
        performs run h := tied_settle target h hmakes (making hkind run.toStage)
        takes run answer h := by
          rw [act_accept hkind]
          exact tied_answered h hmakes (making hkind run.toStage) }
  · refine ((preserves_tied hmakes fun name maximum negativeAllowed reset hkind => ?_).within.relates
      target).conducts
    exact hmakes ⟨v.op, hop, Validation.creates_iff.2 ⟨rfl, _, _, _, _, hkind⟩⟩

end Tabletop
