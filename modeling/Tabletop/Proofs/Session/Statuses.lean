import Tabletop.Proofs.Session.Course
import Tabletop.Proofs.Session.Stops
import Tabletop.Proofs.Walk.Statuses

-- The statuses that calls flip, told by the steps that they report.
namespace Tabletop

-- The stops of calls flip the statuses of the actor as their steps say.
theorem Stop.traces_flips {setting : Setting} {actor : String} (h : setting.Spares actor)
    (plan : Plan) :
    Traces setting plan fun stops s t =>
      s.world.Flips actor (stops.flatMap Stop.entries) t.world where
  refl _ := .of_bears fun _ => id
  trans hflips hmore := by
    rw [List.flatMap_append]
    exact hflips.trans hmore
  visits op _ c run := by
    rw [List.flatMap_singleton]
    exact flips_ofVisit (v := ⟨setting, plan, op⟩) h c run
  answers op _ c answer run := by
    rw [List.flatMap_singleton]
    exact flips_ofAnswer (v := ⟨setting, plan, op⟩) h c answer run
  binds _ _ := .of_bears fun _ => id
  frames _ _ _ := .of_bears fun _ => id

namespace Session

-- The steps that a call reports, each with its operation.
def entries (setting : Setting) (s : Session) (c : Call) : List (Operation × StepRecord) :=
  (s.stops setting c).flatMap Stop.entries

theorem flips_call {setting : Setting} {actor : String} (h : setting.Spares actor) (s : Session)
    (c : Call) : s.world.Flips actor (s.entries setting c) (s.call setting c).2.world :=
  traces_call (Stop.traces_flips h s.activity.toPlan) c

theorem map_entries (setting : Setting) (s : Session) (c : Call) :
    (s.entries setting c).map Prod.snd = (s.stops setting c).flatMap Stop.steps := by
  simp [entries, Stop.entries, List.map_flatMap, Function.comp_def]

-- An answer that is not accepted enters no step.
theorem steps_of_refused {v : Visit} {c : Cursor} {answer : Answer} {run run' : Run}
    {failure : Failure} (h : answered v c answer run = (.error failure, run')) :
    run'.steps = run.steps := by
  simp only [answered] at h
  split at h
  · cases h
  · split at h
    · next hrun =>
      cases h
      exact congrArg (fun acted => Run.steps acted.2) hrun.symm
    · cases h
    · cases h

theorem entries_of_error {setting : Setting} {s t : Session} {c : Call} {failure : Failure}
    (h : s.call setting c = (.error failure, t)) : s.entries setting c = [] := by
  cases c with
  | start origin =>
    have hstarting := s.starting setting origin
    rw [call] at h
    rw [h] at hstarting
    cases hstarting with
    | invalid herrors => simp [entries, stops, herrors]
    | unknown herrors horigin hunknown =>
      subst horigin
      simp [entries, stops, herrors, opening?, hunknown]
  | continueFrom id =>
    have hcontinuing := s.continuing setting id
    rw [call] at h
    rw [h] at hcontinuing
    cases hcontinuing with
    | unknown hunknown => simp [entries, stops, hunknown]
  | resume token answer =>
    have hresuming := s.resuming setting token answer
    rw [call] at h
    rw [h] at hresuming
    cases hresuming with
    | unasked hp => simp [entries, stops, hp]
    | unknown hp htoken => simp [entries, stops, hp, htoken]
    | displaced hp htoken hop => simp [entries, stops, hp, htoken, hop]
    | @refused p op failure run hp htoken hop hanswered =>
      have hnone := steps_of_refused hanswered
      rw [entries, stops_refused hp htoken hop hanswered, List.flatMap_singleton]
      simp only [Stop.entries, Stop.steps, Stop.ofAnswer, Pending.cursor, hanswered, hnone,
        List.drop_length, List.map_nil]

theorem mem_entries {setting : Setting} {s : Session} {c : Call}
    {entry : Operation × StepRecord} (h : entry ∈ s.entries setting c) :
    entry.1 ∈ s.activity.operations ∧ entry.2.operation = entry.1.id := by
  obtain ⟨stop, hstop, hentry⟩ := List.mem_flatMap.1 h
  obtain ⟨step, hstep, rfl⟩ := List.mem_map.1 hentry
  have hmem : stop.op ∈ s.activity.operations :=
    forall_stops (P := fun stop => stop.op ∈ s.activity.operations) (fun _ hop _ _ => hop)
      (fun _ hop _ _ _ => hop) c stop hstop
  exact ⟨hmem, ((s.faithful_stops setting c stop hstop).steps step hstep).1⟩

/-! Chains of calls -/

-- What a session comes to by calls, each in circumstances of its own in which the actor acts and is
-- spared, with the steps that they report. What is done in between leaves the statuses of the actor
-- alone.
inductive Chain (actor : String) (s : Session) : List (Operation × StepRecord) → Session → Prop where
  | here : Chain actor s [] s
  | call {t : Session} {reported : List (Operation × StepRecord)} (setting : Setting) (c : Call) :
    setting.Spares actor → Chain actor s reported t →
    Chain actor s (reported ++ t.entries setting c) (t.call setting c).2
  | between {t : Session} {reported : List (Operation × StepRecord)} (d : Deed) :
    (∀ setting c, d ≠ .call setting c) →
    (∀ statuses, t.world.Bears actor statuses → (t.perform d).world.Bears actor statuses) →
    Chain actor s reported t → Chain actor s reported (t.perform d)

theorem Chain.flips {actor : String} {s t : Session} {reported : List (Operation × StepRecord)}
    (h : s.Chain actor reported t) : s.world.Flips actor reported t.world := by
  induction h with
  | here => exact .of_bears fun _ => id
  | call setting c hsetting _ ih => exact ih.trans (flips_call hsetting _ c)
  | between d _ hbears _ ih => simpa using ih.trans (.of_bears hbears)

-- Each report of a call tells the steps of its operations. After a chain of calls the actor has a
-- status exactly if it had the status before and the steps that succeeded or forked list the status
-- an even number of times, or it had not and they list it an odd number of times. All other steps
-- flip nothing.
theorem statuses_flipped {actor : String} {s t : Session} {e : Entity}
    {reported : List (Operation × StepRecord)} (hactor : Dict.find? s.world actor = some e)
    (hid : e.id = actor) (h : s.Chain actor reported t) :
    (∀ (u : Session) setting c,
      (∀ entry ∈ u.entries setting c,
        entry.1 ∈ u.activity.operations ∧ entry.2.operation = entry.1.id) ∧
      (∀ report u', u.call setting c = (.ok report, u') →
        (u.entries setting c).map Prod.snd = report.steps) ∧
      ∀ failure u', u.call setting c = (.error failure, u') → u.entries setting c = []) ∧
    ∃ e', Dict.find? t.world actor = some e' ∧ e'.id = actor ∧
      ∀ status, Dict.contains e'.statuses status =
        (Dict.contains e.statuses status ^^ decide (Odd (flips status reported))) := by
  refine ⟨fun u setting c => ⟨fun entry => mem_entries, ?_, fun failure u' => entries_of_error⟩, ?_⟩
  · intro report u' hcall
    rw [map_entries, (reports_call hcall).1]
  · obtain ⟨after, ⟨e', hfound, hid', rfl⟩, hflips⟩ := h.flips e.statuses ⟨e, hactor, hid, rfl⟩
    exact ⟨e', hfound, hid', hflips⟩

-- A hero who works up a rage over two goblins, and roars at each of them.
def frenzy : Session where
  activity :=
    { id := "frenzy"
      operations := [
        { id := "each", kind := .target .each, toggles := { statuses := ["raging"] } },
        { id := "roar", kind := .message "Roar", toggles := { statuses := ["loud"] } }] }
  world := World.ofList [{ id := "hero", name := "Hero" }, { id := "g1", name := "Goblin" },
    { id := "g2", name := "Goblin" }]
  dice := .highest

def goblins : Setting := { actor := "hero", targets := ["g1", "g2"] }

theorem spares_goblins : goblins.Spares "hero" where
  acts := rfl
  keeper := ⟨rfl, rfl, fun _ hid => ⟨hid, rfl⟩⟩
  items user item _ _ := ItemRoutine.bears_consume ⟨rfl, rfl, fun _ hid => ⟨hid, rfl⟩⟩ user item

-- The rage stays, and the second roar takes back what the first one gave.
theorem statuses_flipped_frenzy :
    frenzy.Chain "hero" (frenzy.entries goblins (.start none)) (frenzy.start goblins none).2 ∧
    ∃ e', Dict.find? (frenzy.start goblins none).2.world "hero" = some e' ∧
      Dict.contains e'.statuses "raging" = true ∧ Dict.contains e'.statuses "loud" = false := by
  have hchain : frenzy.Chain "hero" (frenzy.entries goblins (.start none))
      (frenzy.start goblins none).2 := .call goblins (.start none) spares_goblins .here
  have hraging : flips "raging" (frenzy.entries goblins (.start none)) = 1 := by cbv
  have hloud : flips "loud" (frenzy.entries goblins (.start none)) = 2 := by cbv
  have hactor : Dict.find? frenzy.world "hero" = some { id := "hero", name := "Hero" } := by
    cbv
  obtain ⟨-, e', hfound, -, hstatuses⟩ := statuses_flipped hactor rfl hchain
  refine ⟨hchain, e', hfound, ?_, ?_⟩
  · rw [hstatuses, hraging]
    decide
  · rw [hstatuses, hloud]
    decide

end Session

end Tabletop
