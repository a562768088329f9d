import Mathlib
import Tabletop.Proofs.Archive
import Tabletop.Proofs.Session.Calls
import Tabletop.Proofs.Walk.Billing

-- Charges over a whole invocation, which may be suspended, stored and continued any number of
-- times.
namespace Tabletop.Session

-- What an invocation that starts at a session comes to, in circumstances in which costs apply. The
-- activity may be saved and loaded in between, and the world may change.
inductive Invocation (s : Session) : Session → Prop where
  | started (setting : Setting) (origin : Option String) : setting.costsApply = true →
    Invocation s (s.start setting origin).2
  | resumed {t : Session} (setting : Setting) (token : String) (answer : Answer) :
    setting.costsApply = true → Invocation s t → Invocation s (t.resume setting token answer).2
  | continued {t : Session} (setting : Setting) (id : String) :
    setting.costsApply = true → Invocation s t → Invocation s (t.continueFrom setting id).2
  | reloaded {t : Session} {loaded : Activity} (savedAt : Timestamp) : t.activity.Storable →
    Archive.decode (Archive.encode savedAt t.activity) = .ok loaded → Invocation s t →
    Invocation s { t with activity := loaded }
  | meanwhile {t : Session} (world : World) (dice : Dice) : Invocation s t →
    Invocation s { t with world, dice }

-- Whether the events of a session since earlier ones are billed, and the operation that waits is
-- charged for if it is owed for.
structure IsBilled (a : Activity) (earlier : List Event) (s : Session) : Prop where
  toPlan_eq : s.activity.toPlan = a.toPlan
  events : BilledSince a earlier s.events s.activity.charged
  pending : ∀ p, s.activity.pending = some p →
    a.Owes p.operation → Dict.contains s.activity.charged p.operation = true

-- The session in which an invocation goes on. A start drops what is left of the one before it,
-- unless the activity has errors.
def opened (s : Session) : Session := if s.activity.errors.isEmpty then s.fresh else s

variable {setting : Setting} {a : Activity} {earlier : List Event} {s t : Session} {run : Run}

theorem opened_of_errors_eq (herrors : s.activity.errors = []) : s.opened = s.fresh := by
  simp [opened, herrors]

theorem opened_of_errors_ne (herrors : s.activity.errors ≠ []) : s.opened = s := by
  simp [opened, herrors]

theorem isBilled_self (s : Session) : s.IsBilled s.activity s.events where
  toPlan_eq := rfl
  events := ⟨[], by simp, .opened⟩
  pending p hp howes := absurd ⟨p, hp, rfl⟩ howes.2

theorem isBilled_close (setting : Setting) (wait : Option Wait)
    (hplan : s.activity.toPlan = a.toPlan) (hpending : s.activity.pending = none)
    (hrun : run.IsBilled a earlier) (hwait : ∀ w, wait = some w → run.Covers a w.operation) :
    (s.close setting wait run).2.IsBilled a earlier := by
  cases wait with
  | none =>
    have hquiet : ∀ e ∈ [Event.runFinished s.activity.id !run.halts.isEmpty], e.IsQuiet := by
      simp [Event.IsQuiet]
    exact ⟨hplan, hrun.quiets hquiet, fun p hp => by simp [close, emit, keep, hpending] at hp⟩
  | some w =>
    have hquiet : ∀ e ∈ [Event.suspended w.operation (setting.tickets s.issued).token],
        e.IsQuiet := by
      simp [Event.IsQuiet]
    refine ⟨hplan, hrun.quiets hquiet, fun p hp => ?_⟩
    cases hp
    exact hwait w rfl

theorem isBilled_drive (hcosts : setting.costsApply = true)
    (hids : (a.operations.map Operation.id).Nodup) (c : Cursor)
    (hplan : s.activity.toPlan = a.toPlan) (hpending : s.activity.pending = none)
    (hrun : run.IsBilled a earlier) : (s.drive setting c run).2.IsBilled a earlier := by
  obtain ⟨hbilled, hcovers⟩ := Run.isBilled_walk hcosts hids c run hrun
  rw [drive, hplan]
  exact isBilled_close setting _ hplan hpending hbilled hcovers

theorem isBilled_start (hcosts : setting.costsApply = true)
    (hids : (s.activity.operations.map Operation.id).Nodup) (origin : Option String) :
    (s.start setting origin).2.IsBilled s.opened.activity s.events := by
  have hstarting := s.starting setting origin
  generalize s.start setting origin = called at hstarting ⊢
  cases hstarting with
  | invalid herrors =>
    rw [opened_of_errors_ne herrors]
    exact isBilled_self s
  | unknown herrors =>
    rw [opened_of_errors_eq herrors]
    exact isBilled_self s.fresh
  | walked herrors =>
    have hquiet : ∀ e ∈ [Event.runStarted s.activity.id s.activity.operations.length],
        e.IsQuiet := by
      simp [Event.IsQuiet]
    rw [opened_of_errors_eq herrors]
    exact isBilled_drive (a := s.fresh.activity) hcosts hids _ rfl rfl
      ((isBilled_self s.fresh).events.quiets hquiet)

theorem isBilled_continueFrom (hcosts : setting.costsApply = true)
    (hids : (a.operations.map Operation.id).Nodup) (id : String)
    (hs : s.IsBilled a earlier) : (s.continueFrom setting id).2.IsBilled a earlier := by
  have hcontinuing := s.continuing setting id
  generalize s.continueFrom setting id = called at hcontinuing ⊢
  cases hcontinuing with
  | unknown => exact hs
  | walked => exact isBilled_drive hcosts hids _ hs.toPlan_eq rfl hs.events

theorem quietly_afterAnswer (v : Visit) (c : Cursor) (destination : Option String)
    (moved : Move × Run) : moved.2.Quietly (afterAnswer v c destination moved).2 := by
  obtain ⟨move, run⟩ := moved
  unfold afterAnswer
  split
  · next heq =>
    cases heq
    split
    · exact .refl _
    · exact v.quietly_halt _ _ _ _
  · next heq _ =>
    cases heq
    exact .refl _

-- An answer that is not a dismissal starts the operation again, and goes on quietly.
theorem quietly_answered {v : Visit} {c : Cursor} {answer : Answer} (hanswer : answer ≠ .dismiss)
    (run : Run) : (v.announceStart c.targetId run).Quietly (answered v c answer run).2 := by
  have haccept := v.quietly_accept answer (v.announceStart c.targetId run)
  unfold answered
  split
  · exact absurd rfl hanswer
  · generalize (v.announceStart c.targetId run).act (v.accept answer) = accepted at haccept
    obtain ⟨result, run'⟩ := accepted
    split
    · next heq => cases heq; exact haccept
    · next heq => cases heq; exact haccept.trans (v.quietly_halt _ _ _ _)
    · next outcome destination run'' heq =>
      cases heq
      exact (haccept.trans (v.quietly_settle c.targetId (.ok outcome) _)).trans
        (quietly_afterAnswer v c destination _)

theorem isBilled_answered {v : Visit} (c : Cursor) (answer : Answer)
    (hrun : run.IsBilled a earlier) (hcovers : run.Covers a v.op.id) :
    (answered v c answer run).2.IsBilled a earlier ∧
      (answered v c answer run).2.Covers a v.op.id := by
  by_cases hdismissed : answer = .dismiss
  · have hquietly : run.Quietly (answered v c answer run).2 :=
      hdismissed ▸ v.quietly_halt _ _ _ run
    exact ⟨hquietly.isBilled hrun, hquietly.covers hcovers⟩
  · have hquietly := quietly_answered (v := v) (c := c) hdismissed run
    exact ⟨hquietly.isBilled (Visit.isBilled_announceStart c.targetId hrun hcovers),
      hquietly.covers hcovers⟩

theorem isBilled_proceed (hcosts : setting.costsApply = true)
    (hids : (a.operations.map Operation.id).Nodup) (turn : Turn)
    (hplan : s.activity.toPlan = a.toPlan) (hpending : s.activity.pending = none)
    (hrun : run.IsBilled a earlier)
    (hwaits : ∀ c operation prompt, turn = .waits c operation prompt → run.Covers a operation) :
    (s.proceed setting turn run).2.IsBilled a earlier := by
  cases turn with
  | goes c => exact isBilled_drive hcosts hids c hplan hpending hrun
  | ends => exact isBilled_close setting none hplan hpending hrun fun w hw => nomatch hw
  | waits c operation prompt =>
    refine isBilled_close setting _ hplan hpending hrun fun w hw => ?_
    cases hw
    exact hwaits c operation prompt rfl

-- The operation that waits was charged for if it is owed for, and so may take an answer.
theorem isBilled_redeemed {p : Pending} {op : Operation} {answer : Answer}
    {result : Except Failure Turn} (hs : s.IsBilled a earlier)
    (hp : s.activity.pending = some p) (hop : waiting? s.activity.toPlan p = some op)
    (hanswered : answered ⟨setting, s.activity.toPlan, op⟩ ⟨p.position, p.target, p.forks, true⟩
      answer (s.bind p.target).run = (result, run)) :
    run.IsBilled a earlier ∧ run.Covers a op.id := by
  obtain ⟨-, hid⟩ := waiting?_eq_some_iff.1 hop
  have hrun : (s.bind p.target).run.IsBilled a earlier := hs.events
  have hcovers : (s.bind p.target).run.Covers a op.id := hid ▸ hs.pending p hp
  have hboth := isBilled_answered (v := ⟨setting, s.activity.toPlan, op⟩)
    ⟨p.position, p.target, p.forks, true⟩ answer hrun hcovers
  rwa [hanswered] at hboth

theorem isBilled_resume (hcosts : setting.costsApply = true)
    (hids : (a.operations.map Operation.id).Nodup) (token : String) (answer : Answer)
    (hs : s.IsBilled a earlier) : (s.resume setting token answer).2.IsBilled a earlier := by
  have hresuming := s.resuming setting token answer
  generalize s.resume setting token answer = called at hresuming ⊢
  cases hresuming with
  | unasked | unknown | displaced => exact hs
  | @refused p op failure run hp _ hop hanswered =>
    obtain ⟨hbilled, hcovers⟩ := isBilled_redeemed hs hp hop hanswered
    refine ⟨hs.toPlan_eq, hbilled, fun q hq => ?_⟩
    obtain rfl : p = q := Option.some.inj (hp.symm.trans hq)
    exact (waiting?_eq_some_iff.1 hop).2 ▸ hcovers
  | @taken p op turn run hp _ hop hanswered =>
    obtain ⟨hbilled, hcovers⟩ := isBilled_redeemed hs hp hop hanswered
    refine isBilled_proceed hcosts hids turn hs.toPlan_eq rfl hbilled fun c operation prompt h => ?_
    obtain ⟨-, rfl⟩ := answered_waits (h ▸ hanswered)
    exact hcovers

theorem Invocation.isBilled (hids : (s.activity.operations.map Operation.id).Nodup)
    (h : s.Invocation t) : t.IsBilled s.opened.activity s.events := by
  have hplan : s.opened.activity.toPlan = s.activity.toPlan := by
    unfold opened
    split <;> rfl
  have hopened : (s.opened.activity.operations.map Operation.id).Nodup := by rwa [hplan]
  induction h with
  | started setting origin hcosts => exact isBilled_start hcosts hids origin
  | resumed setting token answer hcosts _ ih =>
    exact isBilled_resume hcosts hopened token answer ih
  | continued setting id hcosts _ ih => exact isBilled_continueFrom hcosts hopened id ih
  | @reloaded t loaded savedAt hstorable hloaded _ ih =>
    rw [Archive.decode_encode hstorable] at hloaded
    split at hloaded
    · cases hloaded
      exact ih
    · cases hloaded
  | meanwhile world dice _ ih => exact ⟨ih.toPlan_eq, ih.events, ih.pending⟩

-- Charging for an operation either changes nothing, or draws its costs from the pools of the actor
-- and tells so, or fails and draws nothing. From a start on an operation with costs is charged for
-- at most once, and before it starts for the first time. The exceptions are what an activity with
-- errors keeps when it is started: operations that were charged for or waited by then.
theorem charged_once (hids : (s.activity.operations.map Operation.id).Nodup)
    (h : s.Invocation t) :
    (∀ (v : Visit) (run : Run), v.Charging run (v.charge run)) ∧
    ∃ events, t.events = s.events ++ events ∧
      ∀ op ∈ s.activity.operations, op.costs.isFree = false →
        events.countP (Event.Charges op.id) ≤ 1 ∧
        (s.activity.errors = [] ∨
            (Dict.contains s.activity.charged op.id = false ∧ ¬ s.activity.Awaits op.id) →
          ∀ before kind target after,
            events = before ++ .operationStarted op.id kind target :: after →
            before.countP (Event.Charges op.id) = 1) := by
  obtain ⟨events, hevents, hbilled⟩ := (h.isBilled hids).events
  refine ⟨Visit.charging, events, hevents, fun op hop hcosts =>
    ⟨hbilled.count_charges_le op.id, ?_⟩⟩
  intro hleft before kind target after hsplit
  have hpriced : s.activity.toPlan.Priced op.id := ⟨op, hop, rfl, hcosts⟩
  obtain ⟨howes, hnew⟩ : s.opened.activity.Owes op.id ∧
      Dict.contains s.opened.activity.charged op.id = false := by
    by_cases herrors : s.activity.errors = []
    · rw [opened_of_errors_eq herrors]
      exact ⟨⟨hpriced, fun ⟨p, hp, _⟩ => nomatch hp⟩, rfl⟩
    · rw [opened_of_errors_ne herrors]
      obtain ⟨hnew, hawaits⟩ := hleft.resolve_left herrors
      exact ⟨⟨hpriced, hawaits⟩, hnew⟩
  exact hbilled.charged_before howes hnew hsplit

-- An archer who shoots at each of two goblins, and pays for it when the first one is aimed at.
def volley : Session where
  activity :=
    { id := "volley"
      operations := [
        { id := "each", kind := .target .each },
        { id := "shoot", kind := .variable "Distance" none none none,
          costs := { actions := "1" } }] }
  world := World.ofList [
    { id := "hero", name := "Hero",
      system := .obj [("actionPoints", .obj [("turn", .obj [("value", .int 3)])])] },
    { id := "g1", name := "Goblin" }, { id := "g2", name := "Goblin" }]
  dice := .highest

def archery : Setting :=
  { actor := "hero", targets := ["g1", "g2"], rules := { costsInCombatOnly := false } }

theorem charged_once_volley :
    (volley.activity.operations.map Operation.id).Nodup ∧ volley.activity.errors = [] ∧
    volley.Invocation ((volley.start archery none).2.resume archery "T1" (.number 3)).2 ∧
    ∃ events, ((volley.start archery none).2.resume archery "T1" (.number 3)).2.events =
        volley.events ++ events ∧
      events.countP (Event.Charges "shoot") ≤ 1 ∧
      ∀ before kind target after,
        events = before ++ .operationStarted "shoot" kind target :: after →
        before.countP (Event.Charges "shoot") = 1 := by
  have hids : (volley.activity.operations.map Operation.id).Nodup := by simp [volley]
  have herrors : volley.activity.errors = [] := by cbv
  have hinvocation := Invocation.resumed archery "T1" (.number 3) rfl
    (Invocation.started (s := volley) archery none rfl)
  obtain ⟨-, events, hevents, hshoot⟩ := charged_once hids hinvocation
  obtain ⟨hmost, hbefore⟩ := hshoot _ (List.mem_cons_of_mem _ List.mem_cons_self) rfl
  exact ⟨hids, herrors, hinvocation, events, hevents, hmost, hbefore (.inl herrors)⟩

-- An archer who paid for a shot and was asked for its distance. The activity spends arrows that
-- nobody has, and so it cannot be started.
def stray : Session where
  activity :=
    { id := "stray"
      operations := [
        { id := "shoot", kind := .variable "Distance" none none none, costs := { actions := "1" } },
        { id := "spend", kind := .consumeResource "arrows" "1" }]
      pending := some
        { token := "T1", operation := "shoot", position := 0
          prompt := ⟨"Distance", .number none none none⟩
          target := none, forks := [], createdAt := .ofNanoseconds 0 }
      charged := Names.add Dict.empty "shoot" }
  world := World.ofList [
    { id := "hero", name := "Hero",
      system := .obj [("actionPoints", .obj [("turn", .obj [("value", .int 2)])])] }]
  dice := .highest
  issued := 1

-- Whoever goes on after a start that was refused does so in the invocation before it, and shoots
-- again without a charge.
theorem not_charged_once_stray :
    ¬ ∀ s t : Session, (s.activity.operations.map Operation.id).Nodup → s.Invocation t →
      ∃ events, t.events = s.events ++ events ∧
        ∀ op ∈ s.activity.operations, op.costs.isFree = false →
          events.countP (Event.Charges op.id) ≤ 1 ∧
          ∀ before kind target after,
            events = before ++ .operationStarted op.id kind target :: after →
            before.countP (Event.Charges op.id) = 1 := by
  intro hall
  have hids : (stray.activity.operations.map Operation.id).Nodup := by simp [stray]
  have herrors : stray.activity.errors.isEmpty = false := by cbv
  have hstart : (stray.start archery none).2 = stray := by
    have hstarting := stray.starting archery none
    generalize stray.start archery none = called at hstarting ⊢
    cases hstarting with
    | invalid => rfl
    | unknown hnone | walked hnone => simp [hnone] at herrors
  have hshot : (stray.continueFrom archery "shoot").2.events.head? =
      some (.operationStarted "shoot" "variable" none) := by cbv
  obtain ⟨events, hevents, hcharged⟩ := hall stray _ hids
    (.continued archery "shoot" rfl (.started archery none rfl))
  obtain ⟨-, hbefore⟩ := hcharged _ List.mem_cons_self rfl
  rw [hstart] at hevents
  rw [hevents] at hshot
  obtain ⟨after, rfl⟩ := List.head?_eq_some_iff.1 hshot
  exact absurd (hbefore [] _ _ after rfl) (by simp)

end Tabletop.Session
