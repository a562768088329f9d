import Tabletop.Proofs.Document.Shape
import Tabletop.Proofs.Step.Uses
import Tabletop.Proofs.Walk.Mirror
import Tabletop.Proofs.Walk.Stops

-- The uses of the items of an operation over its visit and all the acknowledgements that follow. What
-- was used and what remains is on record in between.
namespace Tabletop

namespace Visit

variable {v : Visit} {run : Run} {used rest : List String} {outcome : Outcome}

theorem recordedNames_congr {r r' : Records} {operation : String}
    (h : Dict.find? r' operation = Dict.find? r operation) (field : String) :
    recordedNames r' operation field = recordedNames r operation field := by
  simp only [recordedNames, h]

theorem recordedNames_merge {r : Records} {operation field : String} {names : List String}
    {fields : List (String × Json)} (h : Entries.last? field fields = some (.names names)) :
    recordedNames (r.merge operation fields) operation field = names := by
  have hread : Document.list Document.text (.names names) = some names :=
    (Document.stored_names names).reads
  simp [recordedNames, Records.merge, Json.member?, Entries.find?_foldl_insert, h, hread]

-- The record tells how far the queue was served.
theorem recordedNames_record (h : Serves used rest outcome) (records : Records) :
    recordedNames (v.record outcome records) v.op.id "used" = used ∧
      recordedNames (v.record outcome records) v.op.id "remaining" = rest := by
  cases h with
  | whole hrest =>
    subst hrest
    exact ⟨recordedNames_merge rfl, recordedNames_merge rfl⟩
  | part item => exact ⟨recordedNames_merge rfl, recordedNames_merge rfl⟩

-- What an operation leaves when it succeeds or waits, whatever becomes of its actor.
theorem settle_serves (h : Serves used rest outcome) (target : Option String) (run : Run) :
    (v.settle target (.ok outcome) run).2.records = v.record outcome run.records ∧
    (v.settle target (.ok outcome) run).2.steps =
      run.steps ++ [⟨v.op.id, target, outcome.result.status, outcome.notes⟩] ∧
    (rest ≠ [] → (v.settle target (.ok outcome) run).2.world = run.world) := by
  cases h with
  | whole hrest => exact ⟨(v.toggle_keeps _).1, rfl, fun hne => absurd hrest hne⟩
  | part item => exact ⟨rfl, rfl, fun _ => rfl⟩

-- An operation that was acknowledged settles as it does when it begins.
theorem answered_acknowledge {source : UseSource} (hkind : v.op.kind = .use source) {c : Cursor}
    {stage : Stage}
    (h : (v.useRest .acknowledge).run (v.announceStart c.targetId run).toStage =
      (.ok outcome, stage)) :
    (Session.answered v c .acknowledge run).2 =
      (v.settle c.targetId (.ok outcome)
        { v.announceStart c.targetId run with toStage := stage }).2 := by
  have haccept : (v.announceStart c.targetId run).act (v.accept .acknowledge) =
      (.ok (outcome, none), { v.announceStart c.targetId run with toStage := stage }) := by
    rw [accept, hkind, Run.act, Act.run_bind, h]
    rfl
  simp only [Session.answered, haccept, Session.afterAnswer]

end Visit

-- An operation that uses items, where a walk or an answer comes to it, with a log of the uses.
structure Service where
  visit : Visit
  stop : Stop
  uses : List Use

namespace Service

-- The operation is visited, and serves the items that its source resolves to.
def ofVisit (v : Visit) (source : UseSource) (c : Cursor) (run : Run) : Service where
  visit := v
  stop := .ofVisit v c run
  uses :=
    match v.stage? c.targetId c.selected run with
    | some stage => (v.serveSource source stage).1
    | none => []

-- It is acknowledged that an item is done, and the operation serves what remained.
def ofAcknowledgement (v : Visit) (c : Cursor) (run : Run) : Service where
  visit := v
  stop := .ofAnswer v c .acknowledge run
  uses := (v.serveRest (v.announceStart c.targetId run).toStage).1

-- What is reported of the operation.
def Tells (service : Service) (status : StepStatus) (notes : String) : Prop :=
  service.stop.steps =
    [⟨service.visit.op.id, service.stop.cursor.targetId, status, notes⟩]

-- Whether the operation waits for an item.
def Waits (service : Service) : Prop := ∃ notes, service.Tells .suspended notes

-- Whether the record of the operation says that these items were used and those remain. With none
-- remaining, it is either waiting for the last one or done.
structure Leaves (service : Service) (used rest : List String) : Prop where
  used_eq : Visit.recordedNames service.stop.after.records service.visit.op.id "used" = used
  remaining_eq :
    Visit.recordedNames service.stop.after.records service.visit.op.id "remaining" = rest
  ends : service.Waits ∨ rest = [] ∧
    service.stop.after.records.value? service.visit.op.id = some (.ofNat used.length) ∧
    service.Tells .success ("used " ++ Text.commaList used)

variable {service : Service} {used rest : List String} {outcome : Outcome}

theorem leaves_of_settle (started : Run) (hsteps : started.steps = service.stop.before.steps)
    (hafter : service.stop.after =
      (service.visit.settle service.stop.cursor.targetId (.ok outcome) started).2)
    (h : Visit.Serves used rest outcome) :
    service.Leaves used rest ∧ (rest ≠ [] → service.stop.after.world = started.world) ∧
      (service.Waits → outcome ≠ Visit.spent used) := by
  obtain ⟨hrecords, htold, hworld⟩ :=
    Visit.settle_serves h service.stop.cursor.targetId started (v := service.visit)
  rw [← hafter] at hrecords htold hworld
  have htells : service.Tells outcome.result.status outcome.notes := by
    rw [Tells, Stop.steps, htold, hsteps, List.drop_left]
  obtain ⟨hused, hremaining⟩ := Visit.recordedNames_record h (v := service.visit) started.records
  rw [← hrecords] at hused hremaining
  refine ⟨⟨hused, hremaining, ?_⟩, hworld, ?_⟩
  · cases h with
    | whole hrest =>
      refine .inr ⟨hrest, ?_, htells⟩
      rw [hrecords, Visit.value?_record rfl (by simp [Visit.spent, Outcome.success]), if_pos rfl]
      rfl
    | part item => exact .inl ⟨_, htells⟩
  · rintro ⟨notes, hwaits⟩ rfl
    rw [Tells] at htells hwaits
    simp [htells, Visit.spent, Outcome.success, Result.status] at hwaits

-- What comes of a service from so much of the queue: a part of it is served, in order, and the rest
-- remains.
structure Advances (service : Service) (ids used queue done rest : List String) : Prop where
  queue_eq : queue = done ++ rest
  uses_eq : service.uses.map (fun use => use.item.id) = done
  leaves : service.Leaves (used ++ done) rest
  progress : service.Waits → done ≠ []
  owns : rest ≠ [] → service.visit.setting.Owns service.stop.after.world ids

theorem exists_advances {ids queue : List String} (started : Run)
    (hsteps : started.steps = service.stop.before.steps)
    (hserved : service.uses = (service.visit.serve used queue started.toStage).1)
    (hafter : ∀ outcome stage,
      (service.visit.serve used queue started.toStage).2 = (.ok outcome, stage) →
      service.stop.after = (service.visit.settle service.stop.cursor.targetId (.ok outcome)
        { started with toStage := stage }).2)
    (howns : queue ≠ [] → service.visit.setting.Owns started.world ids)
    (hqueue : ∀ id ∈ queue, id ∈ ids)
    (hpermits : ∀ use ∈ service.uses, service.visit.setting.Permits use) :
    ∃ done rest, service.Advances ids used queue done rest := by
  rw [hserved] at hpermits
  obtain ⟨done, rest, outcome, world, hcut, huses, hrun, hserves, hnone, howns'⟩ :=
    Visit.serve_cases used howns hqueue hpermits
  obtain ⟨hleaves, hworld, hwaits⟩ := leaves_of_settle
    { started with toStage := { started.toStage with world } } hsteps (hafter _ _ hrun) hserves
  refine ⟨done, rest, hcut, hserved ▸ huses, hleaves, fun hw hdone => ?_, fun hrest => ?_⟩
  · subst hdone
    exact hwaits hw (by simpa using hnone rfl)
  · rw [hworld hrest]
    exact howns' hrest

section

variable {v : Visit} {source : UseSource} {c : Cursor} {run : Run} {ids queue : List String}

theorem advances_ofVisit (hkind : v.op.kind = .use source) {stage : Stage} {actor : Entity}
    (hstage : v.stage? c.targetId c.selected run = some stage)
    (hactor : stage.world.read v.setting.keeper v.setting.actor = .ok actor)
    (hqueue : v.resolveItems actor source = .ok queue)
    (hpermits : ∀ use ∈ (ofVisit v source c run).uses, v.setting.Permits use) :
    ∃ done rest, (ofVisit v source c run).Advances (actor.items.map Item.id) [] queue done rest := by
  obtain ⟨hnone, -⟩ | ⟨started, hsome, -, hsteps, hvisit⟩ := v.visit_cases c.targetId c.selected run
  · rw [hstage] at hnone
    cases hnone
  obtain rfl : started.toStage = stage := Option.some.inj (hsome.symm.trans hstage)
  have hserve : v.serveSource source started.toStage = v.serve [] queue started.toStage := by
    rw [Visit.serveSource, Visit.run_actor hactor]
    dsimp only
    rw [hqueue]
  have hbegin : v.begin.run started.toStage = (v.serve [] queue started.toStage).2 := by
    rw [Visit.begin, hkind]
    dsimp only
    rw [Visit.run_use, hserve]
  refine exists_advances started hsteps ?_ (fun outcome stage hrun => ?_)
    (fun _ => ⟨actor, hactor, fun _ => Iff.rfl⟩)
    (Visit.sublist_of_resolveItems hqueue).subset hpermits
  · simp only [ofVisit, hsome, hserve]
  · have hact : started.act v.begin = (.ok outcome, { started with toStage := stage }) := by
      rw [Run.act, hbegin.trans hrun]
    simp only [ofVisit, Stop.ofVisit, hvisit, hact]

theorem advances_ofAcknowledgement (hkind : v.op.kind = .use source) {used : List String}
    (hused : Visit.recordedNames run.records v.op.id "used" = used)
    (hremaining : Visit.recordedNames run.records v.op.id "remaining" = queue)
    (howns : queue ≠ [] → v.setting.Owns run.world ids) (hqueue : ∀ id ∈ queue, id ∈ ids)
    (hpermits : ∀ use ∈ (ofAcknowledgement v c run).uses, v.setting.Permits use) :
    ∃ done rest, (ofAcknowledgement v c run).Advances ids used queue done rest := by
  have hserve : v.serveRest (v.announceStart c.targetId run).toStage =
      v.serve used queue (v.announceStart c.targetId run).toStage := by
    subst hused hremaining
    rfl
  refine exists_advances (v.announceStart c.targetId run) rfl ?_
    (fun outcome stage hrun => ?_) howns hqueue hpermits
  · rw [ofAcknowledgement, hserve]
  · refine Visit.answered_acknowledge hkind ?_
    rw [Visit.run_useRest, hserve]
    exact hrun

end

-- Services of one operation, one after another: it is visited, and then acknowledged again and again.
-- In between, its record stays, and so do the items that the acting entity owns.
inductive Chain (start : Service) : List Service → Service → Prop where
  | start : Chain start [] start
  | next {earlier : List Service} {last : Service} (v : Visit) (c : Cursor) (run : Run) :
    Chain start earlier last → v.op = start.visit.op →
    Dict.find? run.records v.op.id = Dict.find? last.stop.after.records v.op.id →
    (∀ ids, last.visit.setting.Owns last.stop.after.world ids → v.setting.Owns run.world ids) →
    Chain start (earlier ++ [last]) (.ofAcknowledgement v c run)

-- How far the services of an operation have come with a queue.
structure Reaches (op : Operation) (ids queue : List String) (earlier : List Service)
    (last : Service) (done rest : List String) : Prop where
  op_eq : last.visit.op = op
  queue_eq : queue = done ++ rest
  uses_eq : ((earlier ++ [last]).flatMap uses).map (fun use => use.item.id) = done
  leaves : last.Leaves done rest
  progress : last.Waits → earlier.length < done.length
  owns : rest ≠ [] → last.visit.setting.Owns last.stop.after.world ids

theorem Advances.reaches {ids queue done : List String}
    (h : service.Advances ids [] queue done rest) :
    Reaches service.visit.op ids queue [] service done rest where
  op_eq := rfl
  queue_eq := h.queue_eq
  uses_eq := by simpa using h.uses_eq
  leaves := h.leaves
  progress hwaits := List.length_pos_iff.2 (h.progress hwaits)
  owns := h.owns

-- An operation that was done with its queue waits no more.
theorem Reaches.next {op : Operation} {ids queue done done' rest' : List String}
    {earlier : List Service} {last : Service} (h : Reaches op ids queue earlier last done rest)
    (hop : service.visit.op = op) (h' : service.Advances ids done rest done' rest') :
    Reaches op ids queue (earlier ++ [last]) service (done ++ done') rest' where
  op_eq := hop
  queue_eq := by rw [h.queue_eq, h'.queue_eq, List.append_assoc]
  uses_eq := by
    rw [List.flatMap_append, List.map_append, h.uses_eq, List.flatMap_singleton, h'.uses_eq]
  leaves := h'.leaves
  progress hwaits := by
    have hsome := h'.progress hwaits
    have hrest : rest ≠ [] := by
      rw [h'.queue_eq]
      exact List.append_ne_nil_of_left_ne_nil hsome _
    have hearlier := h.progress (h.leaves.ends.resolve_right fun hdone => hrest hdone.1)
    have hlength := List.length_pos_iff.2 hsome
    rw [List.length_append, List.length_append, List.length_singleton]
    omega
  owns := h'.owns

theorem Chain.reaches {start last : Service} {earlier : List Service} {ids queue : List String}
    {source : UseSource} (hchain : Chain start earlier last)
    (hkind : start.visit.op.kind = .use source) (hqueue : ∀ id ∈ queue, id ∈ ids)
    (hstart : (∀ use ∈ start.uses, start.visit.setting.Permits use) →
      ∃ done rest, start.Advances ids [] queue done rest)
    (hpermits : ∀ service ∈ earlier ++ [last], ∀ use ∈ service.uses,
      service.visit.setting.Permits use) :
    ∃ done rest, Reaches start.visit.op ids queue earlier last done rest := by
  induction hchain with
  | start =>
    obtain ⟨done, rest, hadvances⟩ := hstart (hpermits start (by simp))
    exact ⟨done, rest, hadvances.reaches⟩
  | @next earlier last v c run _ hop hrecord howns ih =>
    rw [List.forall_mem_append, List.forall_mem_singleton] at hpermits
    obtain ⟨done, rest, hreaches⟩ := ih hpermits.1
    have hid : v.op.id = last.visit.op.id := by rw [hop, hreaches.op_eq]
    have hrest : ∀ id ∈ rest, id ∈ ids := fun id hmem =>
      hqueue id (hreaches.queue_eq ▸ List.mem_append_right done hmem)
    obtain ⟨done', rest', hadvances⟩ := advances_ofAcknowledgement (c := c) (hop ▸ hkind)
      ((Visit.recordedNames_congr hrecord _).trans (hid ▸ hreaches.leaves.used_eq))
      ((Visit.recordedNames_congr hrecord _).trans (hid ▸ hreaches.leaves.remaining_eq))
      (fun hne => howns ids (hreaches.owns hne)) hrest hpermits.2
    exact ⟨_, _, hreaches.next hop hadvances⟩

end Service

end Tabletop
