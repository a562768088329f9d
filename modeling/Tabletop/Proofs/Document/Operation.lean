import Tabletop.Document.Operation
import Tabletop.Proofs.Document.Shape

-- Operations of all kinds read back from their documents.
namespace Tabletop

open Document Entries Json

theorem ResetTrigger.stored (t : ResetTrigger) : Stored read t.toJson t :=
  ⟨trivial, by cases t <;> rfl⟩

theorem CostCategory.stored (c : CostCategory) : Stored read (.str c.name) c :=
  ⟨trivial, by cases c <;> rfl⟩

theorem Costs.stored (c : Costs) : Stored read c.toJson c where
  legible := legible_record (by simp)
  reads := by
    rw [read, toJson, record_record]
    simp [last?, text, (CostCategory.stored c.category).reads]

theorem Performance.stored (p : Performance) : Stored read p.toJson p where
  legible := legible_record (by simp)
  reads := by
    rw [read, toJson, record_record]
    simp [last?, flag]

theorem ToggleEffects.stored (t : ToggleEffects) : Stored read t.toJson t where
  legible := legible_record (by simp [(stored_names t.statuses).legible])
  reads := by
    rw [read, toJson, record_record]
    simp [last?, flag, (stored_names t.statuses).reads]

theorem Damage.stored (d : Damage) : Stored read d.toJson d where
  legible := legible_record (by simp)
  reads := by
    rw [read, toJson, record_record]
    simp [last?, text, flag, orElse_alias]

theorem OverrideStage.stored (s : OverrideStage) : Stored read (.str s.name) s :=
  ⟨trivial, by cases s <;> rfl⟩

structure RollOverride.Storable (o : RollOverride) : Prop where
  threshold : o.threshold.Legible
  value : o.value.Legible

theorem RollOverride.stored {o : RollOverride} (h : o.Storable) : Stored read o.toJson o where
  legible := legible_record (by
    simp [(stored_real h.threshold).legible, (stored_real h.value).legible])
  reads := by
    rw [read, toJson, record_record]
    simp [last?, (stored_real h.threshold).reads, (stored_real h.value).reads,
      (OverrideStage.stored o.stage).reads]

theorem TestAgainst.stored (t : TestAgainst) : Stored read t.toJson t := by
  cases t with
  | actorCheck check => exact ⟨⟨trivial, trivial⟩, rfl⟩
  | difficulty formula => exact ⟨⟨trivial, trivial⟩, rfl⟩

theorem TestSpec.stored (s : TestSpec) : Stored read s.toJson s where
  legible := legible_record (by simp [(TestAgainst.stored s.against).legible])
  reads := by
    rw [read, toJson, record_record]
    simp [last?, text, (TestAgainst.stored s.against).reads]

def Predicate.Storable (p : Predicate) : Prop := Whole32 p.priority

theorem Predicate.stored {p : Predicate} (h : p.Storable) :
    Stored (readAs saysNothing) p.toJson p where
  legible := legible_record (by simp [(stored_int32 h).legible])
  reads := by
    have hsource : oneOf Source.all Source.name saysNothing (.str p.source.name) =
        some p.source := by
      cases p.source <;> rfl
    have hcomparison : oneOf Comparison.all Comparison.symbol saysNothing
        (.str p.comparison.symbol) = some p.comparison := by
      cases p.comparison <;> rfl
    rw [readAs, toJson, record_record]
    simp [last?, text, hsource, hcomparison, (stored_int32 h).reads]

theorem AppliesTo.stored (a : AppliesTo) : Stored read (.str a.name) a :=
  ⟨trivial, by cases a <;> rfl⟩

def SlotPolicy.Storable : SlotPolicy → Prop
  | .upTo n => n ≤ Bits.greatest 32
  | _ => True

theorem SlotPolicy.stored {p : SlotPolicy} (h : p.Storable) : Stored read p.toJson p := by
  cases p with
  | single => exact ⟨trivial, rfl⟩
  | upTo n =>
    have hn := stored_nat32 h
    exact ⟨⟨hn.legible, trivial⟩, congrArg (Option.map upTo) hn.reads⟩
  | all => exact ⟨trivial, rfl⟩

def UseSource.Storable : UseSource → Prop
  | .item _ => True
  | .slot _ policy => policy.Storable

theorem UseSource.stored {s : UseSource} (h : s.Storable) : Stored read s.toJson s := by
  cases s with
  | item reference => exact ⟨⟨trivial, trivial⟩, rfl⟩
  | slot slot policy =>
    have hpolicy := SlotPolicy.stored h
    have hslot : Stored readSlot
        (.record [("slot", .str slot), ("policy", policy.toJson)]) (.slot slot policy) := by
      refine ⟨legible_record (by simp [hpolicy.legible]), ?_⟩
      rw [readSlot, record_record]
      simp [last?, text, hpolicy.reads]
    exact ⟨⟨hslot.legible, trivial⟩, hslot.reads⟩

theorem Recipient.stored (r : Recipient) : Stored read (.str r.name) r :=
  ⟨trivial, by cases r <;> rfl⟩

def Component.Storable (c : Component) : Prop := c.quantity ≤ Bits.greatest 32

theorem Component.stored {c : Component} (h : c.Storable) : Stored read c.toJson c where
  legible := legible_record (by simp [(stored_nat32 h).legible])
  reads := by
    rw [read, toJson, record_record]
    simp [last?, text, (stored_nat32 h).reads]

theorem Restore.stored (r : Restore) : Stored read r.toJson r where
  legible := legible_record (by simp)
  reads := by
    rw [read, toJson, record_record]
    simp [last?, text]

def OptionEntry.Storable (o : OptionEntry) : Prop := o.value.Storable

theorem OptionEntry.stored {o : OptionEntry} (h : o.Storable) : Stored read o.toJson o where
  legible := legible_record (by
    simp [h.legible, (stored_optionalText o.continueFrom).legible])
  reads := by
    rw [read, toJson, record_record]
    simp [last?, text, (stored_value h).reads, (stored_optionalText o.continueFrom).reads]

namespace OperationKind

def Storable : OperationKind → Prop
  | .check _ override _ => ∀ o ∈ override, o.Storable
  | .condition conditions _ => ∀ p ∈ conditions, p.Storable
  | .use source => source.Storable
  | .heal _ _ _ components => ∀ c ∈ components, c.Storable
  | .consumption _ components _ => ∀ c ∈ components, c.Storable
  | .variable _ default min max =>
    (∀ x ∈ default, x.Legible) ∧ (∀ x ∈ min, x.Legible) ∧ ∀ x ∈ max, x.Legible
  | .selectOption options _ => ∀ o ∈ options, o.Storable
  | _ => True

theorem stored_tag (kind : OperationKind) : Stored (tag tags) (.str kind.name) kind.name :=
  ⟨trivial, by cases kind <;> rfl⟩

theorem stored_optionalSpec (s : Option TestSpec) :
    Stored (nullable TestSpec.read) (optionalSpec s) s :=
  stored_nullable (fun s _ => TestSpec.stored s) (by simp [TestSpec.toJson, Json.record])

variable {kind : OperationKind}

-- The fields of a kind are found behind those that all operations have.
theorem stored_fields (h : kind.Storable) (common : List (String × Json)) :
    (∀ m ∈ kind.fields, m.2.Legible) ∧
      payload kind.name (.named (ofList (common ++ kind.fields))) =
        some (kind, .named (ofList (common ++ kind.fields))) := by
  cases kind with
  | attack damages applyDamage =>
    have hdamages := stored_list fun d (_ : d ∈ damages) => d.stored
    constructor
    · simp [fields, hdamages.legible]
    · simp [payload, name, fields, last?_append, last?, flag, hdamages.reads]
  | check check override difficulty =>
    have hoverride : Stored (nullable RollOverride.read) (.ofOption RollOverride.toJson override)
        override :=
      stored_nullable (fun o ho => RollOverride.stored (h o ho))
        (by simp [RollOverride.toJson, Json.record])
    have hdifficulty := stored_optionalText difficulty
    constructor
    · simp [fields, optionalText, hoverride.legible, hdifficulty.legible]
    · simp [payload, name, fields, optionalText, last?_append, last?, text, hoverride.reads,
        hdifficulty.reads]
  | test specs =>
    obtain ⟨friendly, neutral, hostile, secret, default⟩ := specs
    constructor
    · simp [fields, (stored_optionalSpec _).legible]
    · simp [payload, name, fields, last?_append, last?, (stored_optionalSpec _).reads]
  | condition conditions proceedAnyway =>
    have hconditions := stored_list fun p hp => Predicate.stored (h p hp)
    constructor
    · simp [fields, hconditions.legible]
    · simp [payload, name, fields, last?_append, last?, flag, hconditions.reads]
  | target appliesTo =>
    constructor
    · simp [fields]
    · simp [payload, name, fields, last?_append, last?, appliesTo.stored.reads]
  | use source =>
    have hsource := UseSource.stored h
    constructor
    · simp [fields, hsource.legible]
    · simp [payload, name, fields, last?_append, last?, hsource.reads]
  | createResource name' maximum negativeAllowed reset =>
    have hreset : ResetTrigger.readAs saysNothing reset.toJson = some reset := by
      cases reset <;> rfl
    constructor
    · simp [fields, reset.stored.legible]
    · simp [payload, name, fields, last?_append, last?, text, flag, hreset]
  | consumeResource resource amount =>
    constructor
    · simp [fields]
    · simp [payload, name, fields, last?_append, last?, text]
  | heal formula resource recipient components =>
    have hresource := stored_optionalText resource
    have hcomponents := stored_list fun c hc => Component.stored (h c hc)
    constructor
    · simp [fields, optionalText, hresource.legible, hcomponents.legible]
    · simp [payload, name, fields, optionalText, last?_append, last?, text, hresource.reads,
        recipient.stored.reads, hcomponents.reads]
  | consumption restores components recipient =>
    have hrestores := stored_list fun r (_ : r ∈ restores) => r.stored
    have hcomponents := stored_list fun c hc => Component.stored (h c hc)
    constructor
    · simp [fields, hrestores.legible, hcomponents.legible]
    · simp [payload, name, fields, last?_append, last?, hrestores.reads, hcomponents.reads,
        recipient.stored.reads]
  | setFlag key value =>
    constructor
    · simp [fields]
    · simp [payload, name, fields, last?_append, last?, text]
  | «variable» label default min max =>
    have hdefault := stored_optionalReal h.1
    have hmin := stored_optionalReal h.2.1
    have hmax := stored_optionalReal h.2.2
    constructor
    · simp [fields, optionalReal, hdefault.legible, hmin.legible, hmax.legible]
    · simp [payload, name, fields, optionalReal, last?_append, last?, text, hdefault.reads,
        hmin.reads, hmax.reads]
  | travel modifier =>
    constructor
    · simp [fields]
    · simp [payload, name, fields, last?_append, last?, text]
  | selectOperation operations title =>
    have hoperations := stored_names operations
    have htitle := stored_optionalText title
    constructor
    · simp [fields, optionalText, hoperations.legible, htitle.legible]
    · simp [payload, name, fields, optionalText, last?_append, last?, hoperations.reads,
        htitle.reads]
  | selectOption options title =>
    have hoptions := stored_list fun o ho => OptionEntry.stored (h o ho)
    have htitle := stored_optionalText title
    constructor
    · simp [fields, optionalText, hoptions.legible, htitle.legible]
    · simp [payload, name, fields, optionalText, last?_append, last?, hoptions.reads,
        htitle.reads]
  | message message =>
    constructor
    · simp [fields]
    · simp [payload, name, fields, last?_append, last?, text]

-- The names of the fields that all operations have are no names of fields of a kind.
theorem last?_fields {key : String} (hkey : key ∈ ["id", "name", "priority", "costs",
    "performance", "executeImmediately", "toggleActiveEffects", "type"]) (kind : OperationKind) :
    last? key kind.fields = none := by
  have hother : ∀ m ∈ kind.fields, m.1 ∉ ["id", "name", "priority", "costs", "performance",
      "executeImmediately", "toggleActiveEffects", "type"] := by
    cases kind <;> simp [fields]
  exact last?_eq_none fun m hm heq => hother m hm (heq ▸ hkey)

end OperationKind

structure Operation.Storable (op : Operation) : Prop where
  priority : Whole32 op.priority
  kind : op.kind.Storable

theorem Operation.stored {op : Operation} (h : op.Storable) : Stored read op.toJson op := by
  obtain ⟨hlegible, hpayload⟩ := OperationKind.stored_fields h.kind [
    ("id", .str op.id), ("name", .str op.name), ("priority", .int op.priority),
    ("costs", op.costs.toJson), ("performance", op.performance.toJson),
    ("executeImmediately", .bool op.immediate), ("toggleActiveEffects", op.toggles.toJson),
    ("type", .str op.kind.name)]
  constructor
  · refine legible_record (List.forall_mem_append.2 ⟨?_, hlegible⟩)
    simp [(stored_int32 h.priority).legible, op.costs.stored.legible,
      op.performance.stored.legible, op.toggles.stored.legible]
  · rw [read, toJson, sharedRecord_record]
    simp only [List.cons_append, List.nil_append] at hpayload ⊢
    simp [OperationKind.last?_fields, last?, text, flag, (stored_int32 h.priority).reads,
      op.costs.stored.reads, op.performance.stored.reads, op.toggles.stored.reads,
      op.kind.stored_tag.reads, hpayload]

end Tabletop
