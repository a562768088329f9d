import Tabletop.Document.Activity
import Tabletop.Proofs.Document.Operation
import Tabletop.Proofs.Ledger

-- Activities read back from their documents, with all that is kept of a suspended invocation.
namespace Tabletop

open Document Entries Json

/-! Prompts -/

theorem Disposition.stored (d : Disposition) : Stored read d.toJson d :=
  ⟨trivial, by cases d <;> rfl⟩

def Snapshot.Storable (s : Snapshot) : Prop := ∀ entry ∈ s.rollData.entries, entry.2.Storable

theorem Snapshot.stored {s : Snapshot} (h : s.Storable) : Stored read s.toJson s where
  legible := legible_record (by simp [s.disposition.stored.legible, (stored_values h).legible])
  reads := by
    rw [read, toJson, record_record]
    simp [last?, text, s.disposition.stored.reads, (stored_values h).reads]

theorem Snapshot.stored_optional {s : Option Snapshot} (h : ∀ t ∈ s, t.Storable) :
    Stored (nullable read) (.ofOption toJson s) s :=
  stored_nullable (fun t ht => stored (h t ht)) (by simp [toJson, Json.record])

theorem Choice.stored (c : Choice) : Stored read c.toJson c where
  legible := legible_record (by simp)
  reads := by
    rw [read, toJson, record_record]
    simp [last?, text]

def PromptKind.Storable : PromptKind → Prop
  | .number default min max =>
    (∀ x ∈ default, x.Legible) ∧ (∀ x ∈ min, x.Legible) ∧ ∀ x ∈ max, x.Legible
  | _ => True

def Prompt.Storable (p : Prompt) : Prop := p.kind.Storable

theorem Prompt.stored {p : Prompt} (h : p.Storable) : Stored read p.toJson p := by
  obtain ⟨title, kind⟩ := p
  cases kind with
  | select choices =>
    have hchoices := stored_list fun c (_ : c ∈ choices) => c.stored
    constructor
    · exact legible_record (by simp [PromptKind.members, hchoices.legible])
    · rw [read, toJson, sharedRecord_record]
      simp [PromptKind.fields, PromptKind.members, PromptKind.tags, tag, last?, text,
        hchoices.reads]
  | number default min max =>
    have hdefault := stored_optionalReal h.1
    have hmin := stored_optionalReal h.2.1
    have hmax := stored_optionalReal h.2.2
    constructor
    · exact legible_record (by
        simp [PromptKind.members, hdefault.legible, hmin.legible, hmax.legible])
    · rw [read, toJson, sharedRecord_record]
      simp [PromptKind.fields, PromptKind.members, PromptKind.tags, tag, last?, text,
        hdefault.reads, hmin.reads, hmax.reads]
  | acknowledge =>
    constructor
    · exact legible_record (by simp [PromptKind.members])
    · rw [read, toJson, sharedRecord_record]
      simp [PromptKind.fields, PromptKind.members, PromptKind.tags, tag, last?, text]

structure Fork.Storable (f : Fork) : Prop where
  resumeAt : f.resumeAt ≤ Bits.greatest 64
  remaining : ∀ s ∈ f.remaining, s.Storable
  outerTarget : ∀ s ∈ f.outerTarget, s.Storable

theorem Fork.stored {f : Fork} (h : f.Storable) : Stored read f.toJson f := by
  have hresumeAt := stored_nat64 h.resumeAt
  have hremaining := stored_list fun s hs => Snapshot.stored (h.remaining s hs)
  have houterTarget := Snapshot.stored_optional h.outerTarget
  constructor
  · exact legible_record (by
      simp [hresumeAt.legible, hremaining.legible, houterTarget.legible])
  · rw [read, toJson, record_record]
    simp [last?, text, hresumeAt.reads, hremaining.reads, houterTarget.reads]

-- Whether a time reads back from its text.
def Timestamp.Legible (t : Timestamp) : Prop := parse? t.text = some t

theorem Timestamp.stored {t : Timestamp} (h : t.Legible) : Stored read t.toJson t where
  legible := legible_str _
  reads := by
    simp only [read, toJson, Document.text, Option.bind_some]
    exact h

structure Pending.Storable (p : Pending) : Prop where
  position : p.position ≤ Bits.greatest 64
  prompt : p.prompt.Storable
  target : ∀ s ∈ p.target, s.Storable
  forks : ∀ f ∈ p.forks, f.Storable
  createdAt : p.createdAt.Legible

theorem Pending.stored {p : Pending} (h : p.Storable) : Stored read p.toJson p := by
  have hposition := stored_nat64 h.position
  have hprompt := Prompt.stored h.prompt
  have htarget := Snapshot.stored_optional h.target
  have hforks : Stored (list Fork.read) (.arr (p.forks.reverse.map Fork.toJson))
      p.forks.reverse :=
    stored_list fun f hf => Fork.stored (h.forks f (List.mem_reverse.1 hf))
  rw [List.map_reverse] at hforks
  have hcreatedAt := Timestamp.stored h.createdAt
  constructor
  · exact legible_record (by
      simp [members, hposition.legible, hprompt.legible, htarget.legible, hforks.legible,
        hcreatedAt.legible])
  · rw [read, toJson, members, record_record]
    simp [last?, text, hposition.reads, hprompt.reads, htarget.reads, hforks.reads,
      hcreatedAt.reads]

/-! Activities -/

-- Whether the numbers of a pool that are finite can be kept in a document. One that is not finite is
-- written as null, which does not read back.
structure Resource.Keepable (r : Resource) : Prop where
  maximum : r.maximum.isFinite = true → r.maximum.Legible
  value : r.value.isFinite = true → r.value.Legible

theorem legible_ofReal {x : Binary64} (h : x.isFinite = true → x.Legible) : (ofReal x).Legible := by
  rw [ofReal]
  split
  · next hfinite => exact h hfinite
  · exact legible_null

theorem real_ofReal_eq_none {x : Binary64} (h : x.isFinite = false) : real (ofReal x) = none := by
  simp [ofReal, h, real]

theorem Resource.Keepable.legible {r : Resource} (h : r.Keepable) : r.toJson.Legible :=
  legible_record (by
    simp [legible_ofReal h.maximum, legible_ofReal h.value, r.reset.stored.legible])

-- A pool with a number that is not finite does not read back.
theorem Resource.read_eq_none {r : Resource} (h : ¬ r.Finite) : read r.toJson = none := by
  rw [Resource.Finite, Classical.not_and_iff_not_or_not, Bool.not_eq_true, Bool.not_eq_true] at h
  rw [read, toJson, record_record]
  obtain h | h := h
  · simp [last?, text, real_ofReal_eq_none h]
  · simp [last?, text, real_ofReal_eq_none h]

structure Resource.Storable (r : Resource) : Prop where
  maximum : r.maximum.Legible
  value : r.value.Legible

theorem Resource.Keepable.storable {r : Resource} (h : r.Keepable) (hfinite : r.Finite) :
    r.Storable :=
  ⟨h.maximum hfinite.1, h.value hfinite.2⟩

theorem Resource.Storable.keepable {r : Resource} (h : r.Storable) : r.Keepable :=
  ⟨fun _ => h.maximum, fun _ => h.value⟩

theorem Resource.stored {r : Resource} (h : r.Storable) : Stored read r.toJson r where
  legible := h.keepable.legible
  reads := by
    rw [read, toJson, record_record]
    simp [last?, text, flag, (stored_real h.maximum).reads, (stored_real h.value).reads,
      r.reset.stored.reads]

-- Whether an activity can be kept in a document but for pools with numbers that are not finite.
structure Activity.Keepable (a : Activity) : Prop where
  system : a.system.Storable
  operations : ∀ op ∈ a.operations, op.Storable
  records : ∀ entry ∈ Dict.entries a.records, entry.2.Storable
  ledger : ∀ entry ∈ Dict.entries a.ledger, entry.2.Keepable
  pending : ∀ p ∈ a.pending, p.Storable

theorem Ledger.legible_toJson {ledger : Ledger}
    (h : ∀ entry ∈ Dict.entries ledger, entry.2.Keepable) : ledger.toJson.Legible := by
  refine legibleMembers_iff.2 fun m hm => ?_
  obtain ⟨entry, hentry, rfl⟩ := List.mem_map.1 hm
  exact (h entry hentry).legible

-- One such pool is enough for all of them not to read back.
theorem Ledger.read_eq_none {ledger : Ledger} (h : ¬ ledger.Finite) :
    read ledger.toJson = none := by
  simp only [Ledger.Finite, Classical.not_forall] at h
  obtain ⟨id, r, hfound, hr⟩ := h
  have hmem : (id, r.toJson) ∈ (Dict.mapValues (fun _ r => r.toJson) ledger).entries :=
    List.mem_map_of_mem (f := fun entry : String × Resource => (entry.1, entry.2.toJson))
      (Dict.mem_entries_iff.2 hfound)
  have hnone := mapM_eq_none (f := fun m : String × Json => (Resource.read m.2).map fun r => (m.1, r))
    hmem (by simp [Resource.read_eq_none hr])
  simp only [read, toJson, Json.ofDict, dict, hnone, Option.map_none]

namespace Activity.Keepable

theorem legible {a : Activity} (h : a.Keepable) : a.toJson.Legible := by
  have hsystem := (stored_value h.system).legible
  have hoperations :=
    (stored_list fun op hop => Operation.stored (h.operations op hop)).legible
  have hrecords : a.records.toJson.Legible := (stored_values h.records).legible
  have hledger := Ledger.legible_toJson h.ledger
  have hcharged := (stored_charged a.charged).legible
  obtain ⟨plan, records, ledger, pending, charged⟩ := a
  cases pending with
  | none => exact legible_record (by simp [hsystem, hoperations, hrecords, hledger, hcharged])
  | some p =>
    have hpending := (Pending.stored (h.pending p rfl)).legible
    exact legible_record (by
      simp [hsystem, hoperations, hrecords, hledger, hcharged, hpending])

-- What is read back is the activity with the pools that are read back.
theorem read_toJson {a : Activity} (h : a.Keepable) :
    read a.toJson = (Ledger.read a.ledger.toJson).map fun ledger => { a with ledger } := by
  have hsystem := (stored_value h.system).reads
  have hoperations := (stored_list fun op hop => Operation.stored (h.operations op hop)).reads
  have hrecords : Records.read a.records.toJson = some a.records := (stored_values h.records).reads
  have hcharged := (stored_charged a.charged).reads
  obtain ⟨plan, records, ledger, pending, charged⟩ := a
  cases pending with
  | none =>
    rw [read, toJson, record_record]
    cases hledger : Ledger.read ledger.toJson <;>
      simp [last?, text, hsystem, hoperations, hrecords, hcharged, hledger]
  | some p =>
    have hpending : Stored (nullable Pending.read) p.toJson (some p) :=
      stored_nullable (o := some p) (fun q hq => Pending.stored (h.pending q hq))
        (by simp [Pending.toJson, Json.record])
    rw [read, toJson, record_record]
    cases hledger : Ledger.read ledger.toJson <;>
      simp [last?, text, hsystem, hoperations, hrecords, hcharged, hledger, hpending.reads]

end Activity.Keepable

structure Activity.Storable (a : Activity) : Prop where
  system : a.system.Storable
  operations : ∀ op ∈ a.operations, op.Storable
  records : ∀ entry ∈ Dict.entries a.records, entry.2.Storable
  ledger : ∀ entry ∈ Dict.entries a.ledger, entry.2.Storable
  pending : ∀ p ∈ a.pending, p.Storable

theorem Activity.Storable.keepable {a : Activity} (h : a.Storable) : a.Keepable :=
  ⟨h.system, h.operations, h.records, fun entry hentry => (h.ledger entry hentry).keepable,
    h.pending⟩

theorem Activity.Keepable.storable {a : Activity} (h : a.Keepable) (hfinite : a.ledger.Finite) :
    a.Storable :=
  ⟨h.system, h.operations, h.records, fun entry hentry =>
    (h.ledger entry hentry).storable (hfinite entry.1 entry.2 (Dict.mem_entries_iff.1 hentry)),
    h.pending⟩

theorem Activity.stored {a : Activity} (h : a.Storable) : Stored read a.toJson a where
  legible := h.keepable.legible
  reads := by
    have hledger : Stored Ledger.read a.ledger.toJson a.ledger :=
      stored_dict fun entry hentry => Resource.stored (h.ledger entry hentry)
    rw [h.keepable.read_toJson, hledger.reads]
    rfl

end Tabletop
