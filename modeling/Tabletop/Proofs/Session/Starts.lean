import Tabletop.Proofs.Session.Billing
import Tabletop.Proofs.Session.Chronicle
import Tabletop.Proofs.Session.Rounds
import Tabletop.Proofs.Session.Stops

-- The operations that a call starts, and what a host hears of them. A deferred operation starts only
-- where the call or its answer names it.
namespace Tabletop

-- What a host hears when an operation starts.
structure Start where
  operation : String
  kind : String
  target : Option String
deriving DecidableEq

-- The start that an event tells of, if any.
def Event.start? : Event → Option Start
  | .operationStarted operation kind target => some ⟨operation, kind, target⟩
  | _ => none

theorem Event.IsQuiet.start?_eq {e : Event} (h : e.IsQuiet) : e.start? = none := by
  cases e <;> first | rfl | cases h

theorem Event.Frames.start?_eq {e : Event} (h : e.Frames) : e.start? = none := by
  cases e <;> first | rfl | cases h

-- Whether a host hears of these starts, in order, between earlier events and later ones.
def Hears (starts : List Start) (earlier later : List Event) : Prop :=
  ∃ told, later = earlier ++ told ∧ told.filterMap Event.start? = starts

namespace Hears

variable {starts more : List Start} {earlier later latest told : List Event}

theorem nothing (htold : ∀ e ∈ told, e.start? = none) : Hears [] earlier (earlier ++ told) :=
  ⟨told, rfl, List.filterMap_eq_nil_iff.2 htold⟩

theorem refl (events : List Event) : Hears [] events events := ⟨[], by simp, rfl⟩

theorem trans (h : Hears starts earlier later) (h' : Hears more later latest) :
    Hears (starts ++ more) earlier latest := by
  obtain ⟨told, rfl, rfl⟩ := h
  obtain ⟨told', rfl, rfl⟩ := h'
  exact ⟨told ++ told', List.append_assoc .., List.filterMap_append ..⟩

theorem of_quietly {run run' : Run} (h : run.Quietly run') : Hears [] run.events run'.events := by
  obtain ⟨-, told, hevents, htold⟩ := h
  rw [hevents]
  exact nothing fun e he => (htold e he).start?_eq

theorem then_quietly {run run' : Run} (h : Hears starts earlier run.events)
    (hquietly : run.Quietly run') : Hears starts earlier run'.events := by
  simpa using h.trans (of_quietly hquietly)

end Hears

namespace Visit

variable {v : Visit} {target : Option String} {selected : Bool} {run : Run}

theorem hears_announceStart (v : Visit) (target : Option String) (run : Run) :
    Hears [⟨v.op.id, v.op.kind.name, target⟩] run.events (v.announceStart target run).events :=
  ⟨_, rfl, rfl⟩

theorem hears_charge (v : Visit) (run : Run) : Hears [] run.events (v.charge run).2.events := by
  have hcharging := v.charging run
  generalize v.charge run = charged at hcharging ⊢
  cases hcharging with
  | waived => exact .refl _
  | paid _ hpaid =>
    obtain ⟨told, hevents, htold⟩ := hpaid.events
    dsimp only
    rw [hevents, List.append_assoc]
    refine .nothing fun e he => ?_
    obtain he | he := List.mem_append.1 he
    · exact (htold e he).isQuiet.start?_eq
    · rw [List.mem_singleton.1 he]
      rfl
  | refused hasides =>
    obtain ⟨-, -, -, told, hevents, htold⟩ := hasides
    dsimp only
    rw [hevents]
    exact .nothing fun e he => (htold e he).isQuiet.start?_eq

-- A deferred operation that a visit carries out was selected.
theorem selected_of_stage? (hstarted : (v.stage? target selected run).isSome)
    (hdeferred : v.op.immediate = false) : selected = true := by
  by_cases hselected : selected = true
  · exact hselected
  · simp [stage?, hdeferred, hselected] at hstarted

end Visit

namespace Stop

-- The start of the operation of a stop, if it is carried out there.
def start? (stop : Stop) : Option Start :=
  stop.stage?.map fun _ => ⟨stop.op.id, stop.op.kind.name, stop.cursor.targetId⟩

-- Whether a stop carries out a deferred operation.
def StartsDeferred (stop : Stop) : Prop := stop.op.immediate = false ∧ stop.stage?.isSome

theorem hears_ofVisit (v : Visit) (c : Cursor) (run : Run) :
    Hears (ofVisit v c run).start?.toList run.events (ofVisit v c run).after.events := by
  by_cases hdeferred : !v.op.immediate && !c.selected
  · simp only [start?, ofVisit, Visit.stage?, Visit.visit, if_pos hdeferred]
    exact .refl _
  · simp only [start?, ofVisit, Visit.stage?, Visit.visit, if_neg hdeferred]
    cases v.obstacle? with
    | some reason => exact .of_quietly (v.quietly_skip _ reason run)
    | none =>
      have hcharge := v.hears_charge run
      generalize v.charge run = charged at hcharge ⊢
      obtain ⟨failure | _, run'⟩ := charged
      · exact hcharge.then_quietly (v.quietly_halt _ _ _ run')
      · have hperform := (v.quietly_begin (v.announceStart c.targetId run')).trans
          (v.quietly_settle c.targetId ((v.announceStart c.targetId run').act v.begin).1 _)
        exact hcharge.trans ((v.hears_announceStart c.targetId run').then_quietly hperform)

theorem hears_ofAnswer (v : Visit) (c : Cursor) (answer : Answer) (run : Run) :
    Hears (ofAnswer v c answer run).start?.toList run.events
      (ofAnswer v c answer run).after.events := by
  by_cases hdismissed : answer = .dismiss
  · subst hdismissed
    exact .of_quietly (v.quietly_halt _ _ _ run)
  · simp only [start?, ofAnswer, if_neg hdismissed]
    exact (v.hears_announceStart c.targetId run).then_quietly
      (Session.quietly_answered hdismissed run)

theorem toList_start? (stop : Stop) : stop.start?.toList = [stop].filterMap start? := by
  cases h : stop.start? <;> simp [h]

-- A host hears of the starts at the stops, and of no other ones.
theorem traces_hears (setting : Setting) (plan : Plan) :
    Traces setting plan fun stops s t => Hears (stops.filterMap start?) s.events t.events where
  refl s := .refl s.events
  trans h h' := by
    rw [List.filterMap_append]
    exact h.trans h'
  visits op _ c run := toList_start? _ ▸ hears_ofVisit ⟨setting, plan, op⟩ c run
  answers op _ c answer run := toList_start? _ ▸ hears_ofAnswer ⟨setting, plan, op⟩ c answer run
  binds s _ := .refl s.events
  frames s e he := .nothing (List.forall_mem_singleton.2 he.start?_eq)

end Stop

namespace Run

variable {setting : Setting} {plan : Plan} {c : Cursor} {run : Run}

-- A walk selects nothing, and so starts no deferred operation unless it begins at a selected one.
theorem not_startsDeferred (hselected : c.selected = false) :
    ∀ stop ∈ run.stops setting plan c, ¬ stop.StartsDeferred := by
  rintro stop hstop ⟨hdeferred, hstarted⟩
  obtain ⟨place, hplace, hat⟩ := List.mem_filterMap.1 hstop
  obtain ⟨op, -, rfl⟩ := Option.map_eq_some_iff.1 hat
  have hunselected : place.cursor.selected = false := by
    refine forall_places (I := fun c _ => c.selected = false) ?_ hselected place hplace
    intro c run c' run' _ hturn
    exact (next_follows (by rw [hturn])).selected
  have hchosen := Visit.selected_of_stage? hstarted hdeferred
  rw [hunselected] at hchosen
  cases hchosen

-- A walk starts a deferred operation only at its first stop, which is then the selected one that it
-- begins at. A continuation of a fork and a later operation are never selected.
theorem selected_of_startsDeferred {i : Nat} {stop : Stop}
    (hstop : (run.stops setting plan c)[i]? = some stop) (hdeferred : stop.StartsDeferred) :
    i = 0 ∧ stop.cursor = c ∧ c.selected = true ∧ plan.order[c.position]? = some stop.op := by
  have hlater : ∀ stop ∈ (run.next setting plan c).1.stops setting plan (run.next setting plan c).2,
      ¬ stop.StartsDeferred := by
    rcases hturn : run.next setting plan c with ⟨turn, run'⟩
    cases turn with
    | goes c' => exact not_startsDeferred (next_follows (by rw [hturn])).selected
    | ends | waits => simp [Turn.stops]
  rw [stops_eq] at hstop
  cases hop : plan.order[c.position]? with
  | none =>
    rw [stop?_of_end run hop] at hstop
    exact absurd hdeferred (hlater stop (List.mem_of_getElem? hstop))
  | some op =>
    rw [stop?_of_order run hop, Option.toList_some, List.singleton_append] at hstop
    cases i with
    | zero =>
      cases hstop
      exact ⟨rfl, rfl, Visit.selected_of_stage? hdeferred.2 hdeferred.1, rfl⟩
    | succ i => exact absurd hdeferred (hlater stop (List.mem_of_getElem? hstop))

end Run

namespace Session

variable {setting : Setting} {s : Session}

-- Whether an operation accepts an answer and is done with it, and the answer names the operation at
-- this position.
structure Jumps (v : Visit) (c : Cursor) (answer : Answer) (run : Run) (position : Nat) : Prop where
  given : answer ≠ .dismiss
  accepted : ∃ outcome id run',
    (v.announceStart c.targetId run).act (v.accept answer) = (.ok (outcome, some id), run') ∧
    outcome.result = .success ∧ v.plan.position? id = some position

theorem jumps_of_afterAnswer {v : Visit} {c c' : Cursor} {outcome : Outcome}
    {destination : Option String} {run : Run} (hlt : c.position < v.plan.order.length)
    (h : (afterAnswer v c destination (v.settle c.targetId (.ok outcome) run)).1 = .goes c')
    (hselected : c'.selected = true) :
    ∃ id, destination = some id ∧ outcome.result = .success ∧
      v.plan.position? id = some c'.position := by
  have hafter : ∀ move, c.after v.plan.order.length v.op.id move ≠ .goes c' := by
    intro move hmove
    rw [(Cursor.follows_after hlt hmove).selected] at hselected
    cases hselected
  have hended : Turn.goes (c.ended v.plan.order.length) ≠ .goes c' := hafter .ended
  simp only [afterAnswer] at h
  split at h
  · next run' id hmoved =>
    have hsuccess : outcome.result = .success := by
      cases hresult : outcome.result with
      | success => rfl
      | _ => simp [Visit.settle, Visit.follow, hresult] at hmoved
    split at h
    · next position hposition =>
      cases h
      exact ⟨id, rfl, hsuccess, hposition⟩
    · exact absurd h hended
  · exact absurd h (hafter _)

-- The one way in which an operation is selected by an answer.
theorem jumps_of_selected {v : Visit} {c c' : Cursor} {answer : Answer} {run run' : Run}
    (hlt : c.position < v.plan.order.length)
    (h : answered v c answer run = (.ok (.goes c'), run')) (hselected : c'.selected = true) :
    Jumps v c answer run c'.position := by
  have hended : c.ended v.plan.order.length ≠ c' := by
    rintro rfl
    cases hselected
  unfold answered at h
  split at h
  · cases h
    exact absurd rfl hended
  · next hgiven =>
    split at h
    · cases h
    · cases h
      exact absurd rfl hended
    · next outcome destination run'' haccepted =>
      simp only [Prod.mk.injEq, Except.ok.injEq] at h
      obtain ⟨id, rfl, hsuccess, hposition⟩ := jumps_of_afterAnswer hlt h.1 hselected
      exact ⟨hgiven, outcome, id, run'', haccepted, hsuccess, hposition⟩

-- Whether a call names the operation at this position for its stop of this number: as the one that
-- it starts at or goes on from, as the one that takes the answer, or as the one that the answer
-- leads to. Each of them is for one stop.
inductive Selects (setting : Setting) (s : Session) : Call → Nat → Nat → Prop where
  | origin {id : String} {position : Nat} : s.activity.position? id = some position →
    Selects setting s (.start (some id)) 0 position
  | continued {id : String} {position : Nat} : s.activity.position? id = some position →
    Selects setting s (.continueFrom id) 0 position
  | answered {p : Pending} {answer : Answer} : s.activity.pending = some p → answer ≠ .dismiss →
    Selects setting s (.resume p.token answer) 0 p.position
  | jumped {p : Pending} {op : Operation} {answer : Answer} {position : Nat} :
    s.activity.pending = some p → waiting? s.activity.toPlan p = some op →
    Jumps ⟨setting, s.activity.toPlan, op⟩ p.cursor answer (s.bind p.target).run position →
    Selects setting s (.resume p.token answer) 1 position

theorem selects_resume {p : Pending} {op : Operation} {answer : Answer} {i : Nat} {stop : Stop}
    (hp : s.activity.pending = some p) (hop : waiting? s.activity.toPlan p = some op)
    (hstop : (s.stops setting (.resume p.token answer))[i]? = some stop)
    (hdeferred : stop.StartsDeferred) :
    s.Selects setting (.resume p.token answer) i stop.cursor.position ∧
      s.activity.toPlan.order[stop.cursor.position]? = some stop.op := by
  have hplace := (waiting?_eq_some_iff.1 hop).1
  rcases hanswered : answered ⟨setting, s.activity.toPlan, op⟩ p.cursor answer
    (s.bind p.target).run with ⟨result, run⟩
  simp only [stops, hp, hop, hanswered, ne_eq, not_true_eq_false, if_false] at hstop
  cases i with
  | zero =>
    cases hstop
    have hgiven : answer ≠ .dismiss := by
      rintro rfl
      simp [Stop.StartsDeferred, Stop.ofAnswer] at hdeferred
    exact ⟨.answered hp hgiven, hplace⟩
  | succ i =>
    rw [List.getElem?_cons_succ] at hstop
    cases result with
    | error failure => cases hstop
    | ok turn =>
      cases turn with
      | goes c =>
        obtain ⟨rfl, rfl, hselected, hat⟩ := Run.selected_of_startsDeferred hstop hdeferred
        exact ⟨.jumped hp hop (jumps_of_selected (List.getElem?_eq_some_iff.1 hplace).1 hanswered
          hselected), hat⟩
      | ends | waits => cases hstop

theorem selects_of_startsDeferred {c : Call} {i : Nat} {stop : Stop}
    (hstop : (s.stops setting c)[i]? = some stop) (hdeferred : stop.StartsDeferred) :
    s.Selects setting c i stop.cursor.position ∧
      s.activity.toPlan.order[stop.cursor.position]? = some stop.op := by
  have hnone : ¬ ([] : List Stop)[i]? = some stop := by simp
  cases c with
  | start origin =>
    simp only [stops] at hstop
    split at hstop
    · split at hstop
      · exact absurd hstop hnone
      · next position hposition =>
        obtain ⟨rfl, hcursor, hselected, hat⟩ := Run.selected_of_startsDeferred hstop hdeferred
        obtain ⟨id, rfl⟩ := Option.isSome_iff_exists.1 hselected
        rw [hcursor]
        exact ⟨.origin hposition, hat⟩
    · exact absurd hstop hnone
  | continueFrom id =>
    simp only [stops] at hstop
    split at hstop
    · exact absurd hstop hnone
    · next position hposition =>
      obtain ⟨rfl, hcursor, -, hat⟩ := Run.selected_of_startsDeferred hstop hdeferred
      rw [hcursor]
      exact ⟨.continued hposition, hat⟩
  | resume token answer =>
    cases hp : s.activity.pending with
    | none =>
      simp only [stops, hp] at hstop
      exact absurd hstop hnone
    | some p =>
      by_cases htoken : p.token = token
      · subst htoken
        cases hop : waiting? s.activity.toPlan p with
        | none =>
          simp only [stops, hp, hop, ne_eq, not_true_eq_false, if_false] at hstop
          exact absurd hstop hnone
        | some op => exact selects_resume hp hop hstop hdeferred
      · simp only [stops, hp, ne_eq, htoken, not_false_eq_true, if_true] at hstop
        exact absurd hstop hnone

-- A host hears of each start at a stop of a call, and of no other one. A deferred operation is
-- carried out only at a stop for which the call, or the answer that it gives, names the operation:
-- at the first one, or at the second one if the answer leads there. So it is carried out at most
-- once for each time that it is named, and neither the continuations of forks nor the operations
-- that a walk comes to later are among these stops.
theorem deferred_selected (setting : Setting) (s : Session) (c : Call) :
    Hears ((s.stops setting c).filterMap Stop.start?) s.events (s.call setting c).2.events ∧
    ∀ i stop, (s.stops setting c)[i]? = some stop → stop.op.immediate = false →
      stop.stage?.isSome →
      s.Selects setting c i stop.cursor.position ∧
        s.activity.toPlan.order[stop.cursor.position]? = some stop.op :=
  ⟨traces_call (Stop.traces_hears setting s.activity.toPlan) c,
    fun _ _ hstop himmediate hstarted => selects_of_startsDeferred hstop ⟨himmediate, hstarted⟩⟩

-- The answer leads to a deferred operation, which no walk would have carried out without it.
theorem deferred_selected_astray :
    ∃ stop, (astray.stops { actor := "hero" } (.resume "T1" (.choice "left")))[1]? = some stop ∧
      stop.op.id = "left" ∧ stop.op.immediate = false ∧ stop.stage?.isSome ∧
      astray.Selects { actor := "hero" } (.resume "T1" (.choice "left")) 1
        stop.cursor.position := by
  have hsecond : ((astray.stops { actor := "hero" } (.resume "T1" (.choice "left")))[1]?).map
      (fun stop => (stop.op.id, stop.op.immediate, stop.stage?.isSome)) =
        some ("left", false, true) := by cbv
  obtain ⟨stop, hstop, hleft⟩ := Option.map_eq_some_iff.1 hsecond
  simp only [Prod.mk.injEq] at hleft
  obtain ⟨hid, himmediate, hstarted⟩ := hleft
  obtain ⟨-, hselects⟩ :=
    deferred_selected { actor := "hero" } astray (.resume "T1" (.choice "left"))
  exact ⟨stop, hstop, hid, himmediate, hstarted, (hselects 1 stop hstop himmediate hstarted).1⟩

end Session

end Tabletop
