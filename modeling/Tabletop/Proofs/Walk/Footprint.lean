import Tabletop.Proofs.Ledger
import Tabletop.Proofs.Walk.Stops

-- What operations may write in the records and in the ledger. Everything else stays as it is,
-- whatever comes of them.
namespace Tabletop

namespace Operation

-- Whether an operation may write the record with this key: its own one, or that of the pool that it
-- draws on.
def Writes (op : Operation) (key : String) : Prop :=
  key = op.id ∨ ∃ amount, op.kind = .consumeResource key amount

-- Whether an operation makes this pool.
def Makes (op : Operation) (id : String) (r : Resource) : Prop :=
  op.id = id ∧ op.kind = .createResource r.name r.maximumFormula r.negativeAllowed r.reset

end Operation

-- Whether these operations account for all that became of the records and of the ledger. No pool
-- goes away, and of one that is there nothing but the value changes.
structure Stage.Footprint (ops : List Operation) (s t : Stage) : Prop where
  records : ∀ key, t.records.find? key ≠ s.records.find? key →
    key = Records.targetKey ∨ ∃ op ∈ ops, op.Writes key
  made : ∀ id r, Dict.find? s.ledger id = none → Dict.find? t.ledger id = some r →
    ∃ op ∈ ops, op.Makes id r
  kept : ∀ id r, Dict.find? s.ledger id = some r →
    ∃ value, Dict.find? t.ledger id = some { r with value } ∧
      (value ≠ r.value → ∃ op ∈ ops, ∃ amount, op.kind = .consumeResource id amount)

namespace Stage.Footprint

variable {ops more : List Operation} {op : Operation} {s t u : Stage}

theorem of_eq (hrecords : t.records = s.records) (hledger : t.ledger = s.ledger) :
    s.Footprint ops t where
  records key hchanged := absurd (by rw [hrecords]) hchanged
  made id r hnone hsome := by
    rw [hledger, hnone] at hsome
    cases hsome
  kept id r hfound := ⟨r.value, by rw [hledger, hfound], fun hchanged => absurd rfl hchanged⟩

theorem mono (h : s.Footprint ops t) (hops : ∀ op ∈ ops, op ∈ more) : s.Footprint more t where
  records key hchanged :=
    (h.records key hchanged).imp_right fun ⟨op, hop, hwrites⟩ => ⟨op, hops op hop, hwrites⟩
  made id r hnone hsome :=
    (h.made id r hnone hsome).imp fun op ⟨hop, hmakes⟩ => ⟨hops op hop, hmakes⟩
  kept id r hfound := by
    obtain ⟨value, hkept, haccount⟩ := h.kept id r hfound
    refine ⟨value, hkept, fun hchanged => ?_⟩
    obtain ⟨op, hop, hconsumes⟩ := haccount hchanged
    exact ⟨op, hops op hop, hconsumes⟩

theorem trans (h : s.Footprint ops t) (h' : t.Footprint ops u) : s.Footprint ops u where
  records key hchanged := by
    by_cases hfirst : t.records.find? key = s.records.find? key
    · exact h'.records key fun hsecond => hchanged (hsecond.trans hfirst)
    · exact h.records key hfirst
  made id r hnone hsome := by
    cases hmiddle : Dict.find? t.ledger id with
    | none => exact h'.made id r hmiddle hsome
    | some r' =>
      -- A pool that was made first may have been drawn on since, which changes its value alone.
      obtain ⟨value, hkept, -⟩ := h'.kept id r' hmiddle
      obtain rfl : { r' with value } = r := Option.some.inj (hkept.symm.trans hsome)
      exact h.made id r' hnone hmiddle
  kept id r hfound := by
    obtain ⟨value, hmiddle, hfirst⟩ := h.kept id r hfound
    obtain ⟨value', hkept, hsecond⟩ := h'.kept id _ hmiddle
    refine ⟨value', hkept, fun hchanged => ?_⟩
    by_cases hvalue : value' = value
    · exact hfirst (hvalue ▸ hchanged)
    · exact hsecond hvalue

theorem append (h : s.Footprint ops t) (h' : t.Footprint more u) :
    s.Footprint (ops ++ more) u :=
  (h.mono fun _ => List.mem_append_left _).trans (h'.mono fun _ => List.mem_append_right _)

-- A record that an operation may write is written.
theorem of_insert {key : String} (value : Json) (hwrites : op.Writes key) :
    s.Footprint [op] { s with records := s.records.insert key value } where
  records k hchanged := by
    by_cases hk : k = key
    · exact .inr ⟨op, List.mem_singleton_self op, hk ▸ hwrites⟩
    · exact absurd (by simp [hk]) hchanged
  made id r hnone hsome := by
    rw [hnone] at hsome
    cases hsome
  kept id r hfound := ⟨r.value, hfound, fun hchanged => absurd rfl hchanged⟩

theorem of_create {resource : Resource} (hmakes : op.Makes resource.id resource) :
    s.Footprint [op] { s with ledger := (s.ledger.create resource).2 } := by
  cases hfound : Dict.find? s.ledger resource.id with
  | some old =>
    have hsame : (s.ledger.create resource).2 = s.ledger := by
      simp [Ledger.create, Dict.contains, hfound]
    exact of_eq rfl hsame
  | none =>
    have hcreate : (s.ledger.create resource).2 = Dict.insert s.ledger resource.id resource := by
      simp [Ledger.create, Dict.contains, hfound]
    rw [hcreate]
    refine ⟨fun key hchanged => absurd rfl hchanged, fun id r hnone hsome => ?_, fun id r hr => ?_⟩
    · rw [Dict.find?_insert] at hsome
      split at hsome
      · next hid =>
        cases hsome
        exact ⟨op, List.mem_singleton_self op, hid ▸ hmakes⟩
      · rw [hnone] at hsome
        cases hsome
    · have hid : id ≠ resource.id := by
        rintro rfl
        rw [hfound] at hr
        cases hr
      exact ⟨r.value, by simp [hid, hr], fun hchanged => absurd rfl hchanged⟩

theorem of_consume {resource amount : String} {x left : Binary64} {ledger : Ledger}
    (hkind : op.kind = .consumeResource resource amount)
    (hconsume : s.ledger.consume resource x = .ok (left, ledger)) :
    s.Footprint [op] { s with ledger } := by
  obtain ⟨old, hold, -, rfl⟩ := Ledger.of_consume hconsume
  refine ⟨fun key hchanged => absurd rfl hchanged, fun id r hnone hsome => ?_, fun id r hr => ?_⟩
  · have hid : id ≠ resource := by
      rintro rfl
      rw [hold] at hnone
      cases hnone
    simp only [Dict.find?_insert, if_neg hid, hnone] at hsome
    cases hsome
  · by_cases hid : id = resource
    · subst hid
      obtain rfl : old = r := Option.some.inj (hold.symm.trans hr)
      exact ⟨left, by simp, fun _ => ⟨op, List.mem_singleton_self op, amount, hkind⟩⟩
    · exact ⟨r.value, by simp [hid, hr], fun hchanged => absurd rfl hchanged⟩

end Stage.Footprint

def Effect.footprint (op : Operation) : Effect where
  Allows s t := s.Footprint [op] t
  refl _ := .of_eq rfl rfl
  trans := .trans

namespace Visit

variable {v : Visit}

-- All that an operation does keeps to its footprint.
theorem within_footprint (v : Visit) : v.Within (fun _ => True) (.footprint v.op) where
  tells _ _ _ _ := .of_eq rfl rfl
  rolls _ _ := .of_eq rfl rfl
  updates _ _ _ _ _ _ := .of_eq rfl rfl
  toggles _ _ _ _ _ := .of_eq rfl rfl
  uses _ _ _ _ _ _ := .of_eq rfl rfl
  creates s resource hkind hid _ _ :=
    (Stage.Footprint.of_create ⟨hid.symm, hkind⟩).trans (.of_eq rfl rfl)
  consumes s resource amount _ _ _ _ hkind hconsume :=
    (Stage.Footprint.of_consume hkind hconsume).trans
      ((Stage.Footprint.of_insert _ (.inr ⟨amount, hkind⟩)).trans (.of_eq rfl rfl))
  leaves _ _ := trivial
  marks _ _ _ := .of_eq rfl rfl
  records s outcome _ := by
    obtain ⟨result, value, fields, notes⟩ := outcome
    have hown : ∀ (s : Stage) (value : Json),
        s.Footprint [v.op] { s with records := s.records.insert v.op.id value } :=
      fun _ value => .of_insert value (.inl rfl)
    have hmerged : ∀ s : Stage, s.Footprint [v.op] { s with
        records := if fields.isEmpty then s.records else s.records.merge v.op.id fields } := by
      intro s
      split
      · exact .of_eq rfl rfl
      · exact hown s _
    cases value with
    | none => exact hmerged s
    | some value => exact (hown s _).trans (hmerged _)

-- An operation that a visit does not carry out changes nothing. A payment that fails takes nothing.
theorem visit_unstarted {target : Option String} {selected : Bool} {run : Run}
    (h : v.stage? target selected run = none) :
    (v.visit target selected run).2.records = run.records ∧
      (v.visit target selected run).2.ledger = run.ledger ∧
      (v.visit target selected run).2.world = run.world := by
  by_cases hdeferred : !v.op.immediate && !selected
  · simp only [visit, if_pos hdeferred]
    exact ⟨trivial, trivial, trivial⟩
  · simp only [stage?, if_neg hdeferred] at h
    simp only [visit, if_neg hdeferred]
    cases hobstacle : v.obstacle? with
    | some reason => exact ⟨rfl, rfl, rfl⟩
    | none =>
      have hcharging := v.charging run
      rw [hobstacle] at h
      generalize v.charge run = charged at h hcharging ⊢
      cases hcharging with
      | waived | paid => cases h
      | refused hasides =>
        obtain ⟨hrecords, hledger, hworld, -⟩ := hasides
        exact ⟨hrecords, hledger, hworld⟩

end Visit

namespace Stop

-- The operation of a stop, if it is carried out there.
def started? (stop : Stop) : Option Operation := stop.stage?.map fun _ => stop.op

theorem footprint_ofVisit (v : Visit) (c : Cursor) (run : Run) :
    run.toStage.Footprint ([ofVisit v c run].filterMap started?)
      (v.visit c.targetId c.selected run).2.toStage := by
  cases hstage : v.stage? c.targetId c.selected run with
  | none =>
    obtain ⟨hrecords, hledger, -⟩ := Visit.visit_unstarted hstage
    exact .of_eq hrecords hledger
  | some stage =>
    have hstarted : [ofVisit v c run].filterMap started? = [v.op] := by
      simp [started?, ofVisit, hstage]
    rw [hstarted]
    exact (v.within_footprint.relates c.targetId).visit c.selected run

theorem footprint_ofAnswer (v : Visit) (c : Cursor) (answer : Answer) (run : Run) :
    run.toStage.Footprint ([ofAnswer v c answer run].filterMap started?)
      (Session.answered v c answer run).2.toStage := by
  by_cases hdismissed : answer = .dismiss
  · subst hdismissed
    exact .of_eq rfl rfl
  · have hstarted : [ofAnswer v c answer run].filterMap started? = [v.op] := by
      simp [started?, ofAnswer, hdismissed]
    rw [hstarted]
    exact (v.within_footprint.relates c.targetId).answered answer run

end Stop

end Tabletop
