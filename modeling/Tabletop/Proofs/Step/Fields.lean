import Tabletop.Proofs.Document.Target
import Tabletop.Proofs.Step.Effects
import Tabletop.Proofs.Walk.Relating

-- The fields that operations write into their records, besides the value.
namespace Tabletop

-- What an operation of this kind records.
def OperationKind.recorded : OperationKind → List String
  | .attack .. => ["rolls", "damages"]
  | .check .. => ["die", "modifier", "success"]
  | .test _ => ["outcome", "results"]
  | .condition .. => ["results"]
  | .use _ => ["used", "remaining"]
  | .createResource .. => ["maximum", "created"]
  | .consumeResource .. => ["remaining"]
  | .heal .. => ["resulting", "restored"]
  | .consumption .. => ["restored"]
  | .travel _ => ["speed", "modifier"]
  | .selectOption .. => ["label"]
  | .target _ | .setFlag .. | .variable .. | .selectOperation .. | .message _ => []

-- No operation records a field that a snapshot is read from.
theorem OperationKind.recorded_plain (kind : OperationKind) :
    ∀ name ∈ kind.recorded, name ∉ Snapshot.fieldNames := by
  cases kind <;> simp [recorded, Snapshot.fieldNames]

-- Whether an outcome leaves no other fields than these.
def Outcome.Fits (names : List String) (o : Outcome) : Prop := ∀ f ∈ o.fields, f.1 ∈ names

theorem Outcome.fits (o : Outcome) : o.Fits (o.fields.map Prod.fst) :=
  fun _ hf => List.mem_map_of_mem hf

namespace Visit

open Act

variable {v : Visit} {P : α → Prop}

theorem yields_lift {outcome : Except Failure α} (h : ∀ x, outcome = .ok x → P x) :
    Yields P (lift outcome) := by
  cases outcome with
  | ok x => exact .pure (h x rfl)
  | error failure => exact .throw failure

theorem fields_attack (damages : List Damage) (apply : Bool) :
    Yields (Outcome.Fits ["rolls", "damages"]) (v.attack damages apply) := by
  unfold attack
  refine .bind fun _ => ?_
  extract_lets recipients rest
  have hrest : ∀ u, Yields (Outcome.Fits ["rolls", "damages"]) (rest u) := fun _ =>
    .bind fun _ => .bind fun _ => .bind fun _ => .bind fun _ => .pure (Outcome.fits _)
  split
  · exact .bind hrest
  · exact hrest ()

theorem fields_check (name : String) (override : Option RollOverride)
    (difficulty : Option String) :
    Yields (Outcome.Fits ["die", "modifier", "success"]) (v.check name override difficulty) := by
  refine .bind fun _ => .bind fun _ => .bind fun _ => ?_
  cases difficulty with
  | some formula =>
    exact .bind fun _ => .bind fun _ => .bind fun _ => .pure (Outcome.fits _)
  | none =>
    exact .bind fun _ => .bind fun _ => .pure (Outcome.fits _)

theorem fields_test (specs : TestSpecs) :
    Yields (Outcome.Fits ["outcome", "results"]) (v.test specs) := by
  unfold test
  refine .bind fun _ => ?_
  extract_lets rest
  have hrest : ∀ u, Yields (Outcome.Fits ["outcome", "results"]) (rest u) := fun _ =>
    .bind fun _ => .bind fun _ => .bind fun _ => .bind fun _ => .pure (Outcome.fits _)
  split
  · exact .bind hrest
  · exact hrest ()

theorem fields_condition (conditions : List Predicate) (proceedAnyway : Bool) :
    Yields (Outcome.Fits ["results"]) (v.condition conditions proceedAnyway) := by
  unfold condition
  refine .bind fun _ => .bind fun _ => .bind fun _ => ?_
  extract_lets fields
  split
  · exact .pure (Outcome.fits _)
  · split
    · exact .pure (Outcome.fits _)
    · exact .pure (Outcome.fits _)

theorem fields_target (appliesTo : AppliesTo) :
    Yields (Outcome.Fits []) (v.target appliesTo) := by
  unfold target
  refine .bind fun _ => ?_
  extract_lets forked rest
  have hforked : ∀ chosen, Yields (Outcome.Fits []) (forked chosen) := fun _ =>
    .pure (Outcome.fits _)
  have hrest : ∀ u, Yields (Outcome.Fits []) (rest u) := by
    intro u
    cases appliesTo with
    | each => exact .bind fun chosen => hforked chosen
    | random => exact .bind fun _ => .bind fun chosen => hforked chosen
  split
  · exact .bind hrest
  · exact hrest ()

theorem fields_useQueue (used queue : List String) :
    Yields (Outcome.Fits ["used", "remaining"]) (v.useQueue used queue) := by
  induction queue generalizing used with
  | nil => exact .pure (Outcome.fits _)
  | cons reference rest ih =>
    unfold useQueue
    refine .bind fun _ => ?_
    split
    · exact .throw _
    · refine .bind fun use => ?_
      cases use with
      | used _ => exact ih _
      | pending => exact .pure (Outcome.fits _)

theorem fields_use (source : UseSource) :
    Yields (Outcome.Fits ["used", "remaining"]) (v.use source) := by
  unfold use
  refine .bind fun _ => ?_
  split
  · exact fields_useQueue _ _
  · exact .throw _

theorem fields_useRest (answer : Answer) :
    Yields (Outcome.Fits ["used", "remaining"]) (v.useRest answer) := by
  unfold useRest
  split
  · exact .bind fun _ => fields_useQueue _ _
  · exact .throw _

theorem fields_createResource (name maximum : String) (negativeAllowed : Bool)
    (reset : ResetTrigger) : Yields (Outcome.Fits ["maximum", "created"])
      (v.createResource name maximum negativeAllowed reset) := by
  unfold createResource
  refine .bind fun _ => ?_
  split
  · exact .pure (by simp [Outcome.Fits, Outcome.success])
  · exact .bind fun _ => .bind fun _ => .bind fun _ => .bind fun _ => .bind fun _ =>
      .pure (Outcome.fits _)

theorem fields_consumeResource (resource amount : String) :
    Yields (Outcome.Fits ["remaining"]) (v.consumeResource resource amount) := by
  unfold consumeResource
  refine .bind fun _ => ?_
  split
  · exact .throw _
  · refine .bind fun _ => .bind fun _ => .bind fun _ => .bind fun _ => ?_
    split
    · exact .throw _
    · exact .bind fun _ => .bind fun _ => .pure (Outcome.fits _)

theorem fields_heal (formula : String) (resource : Option String) (recipient : Recipient)
    (components : List Component) : Yields (Outcome.Fits ["resulting", "restored"])
      (v.heal formula resource recipient components) :=
  .bind fun _ => .bind fun _ => .bind fun _ => .bind fun _ => .bind fun _ =>
    .bind fun _ => .bind fun _ => .pure (Outcome.fits _)

theorem fields_consumption (restores : List Restore) (components : List Component)
    (recipient : Recipient) : Yields (Outcome.Fits ["restored"])
      (v.consumption restores components recipient) :=
  .bind fun _ => .bind fun _ => .bind fun _ => .bind fun _ => .bind fun _ =>
    .bind fun _ => .bind fun _ => .pure (Outcome.fits _)

theorem fields_setFlag (key value : String) :
    Yields (Outcome.Fits []) (v.setFlag key value) :=
  .bind fun _ => .bind fun _ => .bind fun _ => .pure (Outcome.fits _)

theorem fields_travel (modifier : String) :
    Yields (Outcome.Fits ["speed", "modifier"]) (v.travel modifier) := by
  unfold travel
  refine .bind fun _ => ?_
  extract_lets path rest
  have hrest : ∀ speed, Yields (Outcome.Fits ["speed", "modifier"]) (rest speed) := fun _ =>
    .bind fun _ => .bind fun _ => .bind fun _ => .pure (Outcome.fits _)
  split
  · exact .bind hrest
  · exact .bind fun _ => .bind hrest

theorem fields_message (text : String) : Yields (Outcome.Fits []) (v.message text) :=
  .bind fun _ => .bind fun _ => .pure (Outcome.fits _)

theorem fields_askOperation {operations : List String} {title : Option String} {o : Outcome}
    (h : v.askOperation operations title = .ok o) : o.fields = [] := by
  simp only [askOperation] at h
  split at h
  · cases h
  · cases h
    rfl

theorem fields_askOption {options : List OptionEntry} {title : Option String} {o : Outcome}
    (h : v.askOption options title = .ok o) : o.fields = [] := by
  simp only [askOption] at h
  split at h
  · cases h
  · cases h
    rfl

theorem fields_begin : Yields (Outcome.Fits v.op.kind.recorded) v.begin := by
  unfold begin OperationKind.recorded
  cases v.op.kind with
  | attack damages apply => exact fields_attack damages apply
  | check name override difficulty => exact fields_check name override difficulty
  | test specs => exact fields_test specs
  | condition conditions proceedAnyway => exact fields_condition conditions proceedAnyway
  | target appliesTo => exact fields_target appliesTo
  | use source => exact fields_use source
  | createResource name maximum negativeAllowed reset =>
    exact fields_createResource name maximum negativeAllowed reset
  | consumeResource resource amount => exact fields_consumeResource resource amount
  | heal formula resource recipient components =>
    exact fields_heal formula resource recipient components
  | consumption restores components recipient =>
    exact fields_consumption restores components recipient
  | setFlag key value => exact fields_setFlag key value
  | «variable» label default min max =>
    exact .pure (Outcome.fits _)
  | travel modifier => exact fields_travel modifier
  | selectOperation operations title =>
    exact yields_lift fun o ho => by simp [Outcome.Fits, fields_askOperation ho]
  | selectOption options title =>
    exact yields_lift fun o ho => by simp [Outcome.Fits, fields_askOption ho]
  | message text => exact fields_message text

theorem fields_acceptVariable {label : String} {default min max : Option Binary64}
    {answer : Answer} {o : Outcome}
    (h : v.acceptVariable label default min max answer = .ok o) : o.fields = [] := by
  unfold acceptVariable at h
  extract_lets bounded at h
  have hbounded : ∀ n, bounded n = .ok o → o.fields = [] := by
    intro n hn
    simp only [bounded] at hn
    split at hn
    · cases hn
    · split at hn
      · cases hn
      · split at hn
        · cases hn
        · cases hn
          rfl
  split at h
  · exact hbounded _ h
  · split at h
    · exact hbounded _ h
    · cases h
  · split at h
    · exact hbounded _ h
    · cases h
  · cases h

theorem fields_acceptOperation {operations : List String} {answer : Answer}
    {taken : Outcome × Option String} (h : v.acceptOperation operations answer = .ok taken) :
    taken.1.fields = [] := by
  simp only [acceptOperation] at h
  split at h
  · cases h
  · split at h
    · split at h
      · cases h
        rfl
      · cases h
    · cases h

theorem fields_acceptOption {options : List OptionEntry} {answer : Answer}
    {taken : Outcome × Option String} (h : v.acceptOption options answer = .ok taken) :
    taken.1.Fits ["label"] := by
  simp only [acceptOption] at h
  split at h
  · cases h
  · split at h
    · split at h
      · cases h
        simp [Outcome.Fits, Outcome.success]
      · cases h
    · cases h

theorem fields_accept (answer : Answer) :
    Yields (fun taken => taken.1.Fits v.op.kind.recorded) (v.accept answer) := by
  unfold accept
  split
  · next hkind =>
    rw [hkind]
    exact (fields_useRest answer).map fun o ho => ho
  · next hkind =>
    rw [hkind]
    exact (yields_lift (P := fun o => o.fields = []) fun o => fields_acceptVariable).map
      fun o ho => by simp [Outcome.Fits, ho]
  · next hkind =>
    rw [hkind]
    exact yields_lift fun taken htaken => by
      simp [Outcome.Fits, fields_acceptOperation htaken]
  · next hkind =>
    rw [hkind]
    exact yields_lift fun taken => fields_acceptOption
  · exact fields_begin.map fun o ho => ho

-- Whatever an operation leaves, be it carried out or answered, has the fields of its kind.
theorem Leaves.fits {o : Outcome} (h : v.Leaves o) : o.Fits v.op.kind.recorded := by
  obtain ⟨s, s', hrun⟩ | ⟨answer, destination, s, s', hrun⟩ := h
  · exact fields_begin s o s' hrun
  · exact fields_accept answer s (o, destination) s' hrun

-- What lasts while operations write such fields lasts when an outcome is recorded.
theorem lasting_record (v : Visit) {Q : Records → Prop} (hQ : Records.Lasting Q) {o : Outcome}
    {r : Records} (hfits : o.Fits v.op.kind.recorded) (h : Q r) : Q (v.record o r) := by
  have hfields : ∀ f ∈ o.fields, f.1 ∉ Snapshot.fieldNames :=
    fun f hf => v.op.kind.recorded_plain f.1 (hfits f hf)
  obtain ⟨result, value, fields, notes⟩ := o
  have hmerged : ∀ {r : Records}, Q r →
      Q (if fields.isEmpty then r else r.merge v.op.id fields) := by
    intro r hr
    split
    · exact hr
    · exact hQ.merge hr v.op.id hfields
  cases value with
  | none => exact hmerged h
  | some value => exact hmerged (hQ.setValue h v.op.id value)

end Visit

end Tabletop
