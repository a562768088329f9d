import Mathlib
import Tabletop.Proofs.Session.Calls

-- Prompts and their tokens over whole sequences of calls.
namespace Tabletop.Session

-- Whether an answer with this token reaches the operation that waits, which may still reject it.
def Redeems (token : String) (s : Session) : Prop :=
  ∀ setting answer failure, (s.resume setting token answer).1 = .error failure →
    ∃ id message, failure = .rejected id message

-- Whether every answer with this token fails before any operation sees it.
def Refuses (token : String) (s : Session) : Prop :=
  ∀ setting answer, (s.resume setting token answer).1 = .error .nothingPending ∨
    (s.resume setting token answer).1 = .error (.unknownToken token)

-- No token comes twice among the tickets that are left and the one that is out.
structure Unrepeated (tickets : Nat → Ticket) (s : Session) : Prop where
  tokens : Function.Injective fun n => (tickets n).token
  pending : ∀ p, s.activity.pending = some p → ∀ n, s.issued ≤ n → (tickets n).token ≠ p.token

-- A token that was issued before and belongs to no prompt any more.
structure Spent (tickets : Nat → Ticket) (token : String) (s : Session) : Prop where
  tickets : ∀ n, s.issued ≤ n → (tickets n).token ≠ token
  pending : ∀ p, s.activity.pending = some p → p.token ≠ token

-- The operation that waits, if any, is the one at its position.
def InPlace (s : Session) : Prop :=
  ∀ p, s.activity.pending = some p → (waiting? s.activity.toPlan p).isSome

variable {tickets : Nat → Ticket} {setting : Setting} {plan : Plan} {issued : Nat}
  {report : Report} {s s' : Session} {c : Call} {token : String}

theorem Reported.status_iff (h : Reported setting plan issued report s) (token : String)
    (prompt : Prompt) :
    report.status = .suspended token prompt ↔
      ∃ p, s.activity.pending = some p ∧ p.token = token ∧ p.prompt = prompt := by
  cases h with
  | finished htruthful _ hpending =>
    rw [hpending]
    refine ⟨fun h => ?_, by simp⟩
    simpa [Report.isSuspended, h] using htruthful.not_suspended
  | waiting p hstatus _ hpending =>
    rw [hstatus, hpending]
    simp

theorem Reported.inPlace (h : Reported setting plan issued report s) : InPlace s := by
  cases h with
  | finished _ _ hpending => intro p hp; simp [hpending] at hp
  | waiting p _ hplan hpending _ hplace =>
    intro q hq
    obtain rfl : p = q := by simpa [hpending] using hq
    exact hplan ▸ hplace

theorem inPlace_call (s : Session) (c : Call) (hs : InPlace s) :
    InPlace (s.call setting c).2 := by
  obtain ⟨report, s', hcall, hreported, -⟩ | ⟨failure, s', hcall, hplan, -, hpending⟩ :=
    call_cases setting s c
  · rw [hcall]
    exact hreported.inPlace
  · rw [hcall]
    intro p hp
    rcases hpending with hpending | hpending
    · exact hplan ▸ hs p (hpending ▸ hp)
    · simp [hpending] at hp

-- A token that is not among the tickets that are left is not given to the next prompt.
theorem Reported.spent (h : Reported setting plan issued report s)
    (htickets : setting.tickets = tickets)
    (hleft : ∀ n, issued ≤ n → (tickets n).token ≠ token) : Spent tickets token s := by
  cases h with
  | finished _ _ hpending hissued => exact ⟨hissued ▸ hleft, by simp [hpending]⟩
  | waiting p _ _ hpending htoken _ hissued =>
    refine ⟨fun n hn => hleft n (by omega), fun q hq => ?_⟩
    obtain rfl : p = q := by simpa [hpending] using hq
    rw [htoken, htickets]
    exact hleft issued (Nat.le_refl _)

theorem Unrepeated.call (hs : Unrepeated tickets s) (htickets : setting.tickets = tickets)
    (c : Call) : Unrepeated tickets (s.call setting c).2 := by
  refine ⟨hs.tokens, fun p hp n hn htoken => ?_⟩
  obtain ⟨report, s', hcall, hreported, -⟩ | ⟨failure, s', hcall, -, hissued, hpending⟩ :=
    call_cases setting s c
  · simp only [hcall] at hp hn
    cases hreported with
    | finished _ _ hnone => simp [hnone] at hp
    | waiting q _ _ hq hqtoken _ hnext =>
      obtain rfl : q = p := by simpa [hq] using hp
      have hsame : n = s.issued := hs.tokens (by simp [htoken, hqtoken, htickets])
      omega
  · simp only [hcall] at hp hn
    rcases hpending with hpending | hpending
    · exact hs.pending p (hpending ▸ hp) n (hissued ▸ hn) htoken
    · simp [hpending] at hp

theorem Spent.call (hs : Spent tickets token s) (htickets : setting.tickets = tickets)
    (c : Call) : Spent tickets token (s.call setting c).2 := by
  obtain ⟨report, s', hcall, hreported, -⟩ | ⟨failure, s', hcall, -, hissued, hpending⟩ :=
    call_cases setting s c
  · rw [hcall]
    exact hreported.spent htickets hs.tickets
  · rw [hcall]
    refine ⟨hissued ▸ hs.tickets, fun p hp => ?_⟩
    rcases hpending with hpending | hpending
    · exact hs.pending p (hpending ▸ hp)
    · simp [hpending] at hp

-- An answer that is reported on spends its token.
theorem spent_of_resume {answer : Answer} (hs : Unrepeated tickets s)
    (htickets : setting.tickets = tickets)
    (hcall : s.call setting (.resume token answer) = (.ok report, s')) :
    Spent tickets token s' := by
  obtain ⟨report', s'', hcall', hreported, hredeemed⟩ | ⟨failure, s'', hcall', -⟩ :=
    call_cases setting s (.resume token answer)
  · obtain ⟨rfl, rfl⟩ : report' = report ∧ s'' = s' := by simpa [hcall] using hcall'.symm
    obtain ⟨p, hp, rfl⟩ := hredeemed token answer rfl
    exact hreported.spent htickets (hs.pending p hp)
  · simp [hcall] at hcall'

theorem Spent.refuses (hs : Spent tickets token s) : Refuses token s := by
  intro setting answer
  have hresuming := s.resuming setting token answer
  generalize s.resume setting token answer = called at hresuming ⊢
  cases hresuming with
  | unasked => exact .inl rfl
  | unknown => exact .inr rfl
  | displaced hp htoken | refused hp htoken | taken hp htoken =>
    exact absurd htoken (hs.pending _ hp)

theorem InPlace.redeems (hs : InPlace s) {p : Pending} (hp : s.activity.pending = some p) :
    Redeems p.token s := by
  intro setting answer failure h
  obtain ⟨op, hop⟩ := Option.isSome_iff_exists.1 (hs p hp)
  rw [resume_waiting answer hp hop] at h
  split at h
  · next failure' run hanswered =>
    obtain ⟨id, message, rfl⟩ := answered_error hanswered
    exact ⟨id, message, by simpa using h.symm⟩
  · simp at h

-- What single calls in such circumstances preserve is preserved by all of them.
theorem after_of_call {P : Session → Prop} (allowed : Setting → Prop)
    (hcall : ∀ setting, allowed setting → ∀ s c, P s → P (s.call setting c).2)
    (calls : List (Setting × Call)) (hallowed : ∀ x ∈ calls, allowed x.1) (hs : P s) :
    P (s.after calls) := by
  induction calls generalizing s with
  | nil => exact hs
  | cons x calls ih =>
    obtain ⟨setting, c⟩ := x
    simp only [List.forall_mem_cons] at hallowed
    exact ih hallowed.2 (hcall setting hallowed.1 s c hs)

-- A report tells of a prompt exactly when there is one. As long as a prompt is out its token is
-- redeemed, and a token for which something was reported is never redeemed again.
theorem suspension_protocol (hunrepeated : Unrepeated tickets s) (calls : List (Setting × Call))
    (hcalls : ∀ x ∈ calls, x.1.tickets = tickets) (htickets : setting.tickets = tickets)
    (hcall : (s.after calls).call setting c = (.ok report, s')) :
    (∀ token prompt, report.status = .suspended token prompt ↔
      ∃ p, s'.activity.pending = some p ∧ p.token = token ∧ p.prompt = prompt) ∧
    (∀ later p, (s'.after later).activity.pending = some p → Redeems p.token (s'.after later)) ∧
    ∀ token answer, c = .resume token answer → ∀ later, (∀ x ∈ later, x.1.tickets = tickets) →
      Refuses token (s'.after later) := by
  have hnow : Unrepeated tickets (s.after calls) :=
    after_of_call _ (fun _ htickets _ c hs => hs.call htickets c) calls hcalls hunrepeated
  obtain ⟨report', s'', hcall', hreported, -⟩ | ⟨failure, s'', hcall', -⟩ :=
    call_cases setting (s.after calls) c
  · obtain ⟨rfl, rfl⟩ : report' = report ∧ s'' = s' := by simpa [hcall] using hcall'.symm
    refine ⟨hreported.status_iff, fun later p hp => ?_, fun token answer hc later hlater => ?_⟩
    · have hplace : InPlace (s''.after later) :=
        after_of_call (fun _ => True) (fun _ _ s c hs => inPlace_call s c hs) later
          (fun _ _ => trivial) hreported.inPlace
      exact hplace.redeems hp
    · subst hc
      have hspent := spent_of_resume hnow htickets hcall
      exact (after_of_call _ (fun _ htickets _ c hs => hs.call htickets c) later hlater
        hspent).refuses
  · simp [hcall] at hcall'

theorem numbered_token_injective : Function.Injective fun n => (Ticket.numbered n).token := by
  intro n k h
  have hrepr : Nat.repr (n + 1) = Nat.repr (k + 1) :=
    (String.append_right_inj "T").1 h
  have hdigits := congrArg (fun text : String => Nat.ofDigitChars 10 text.toList 0) hrepr
  simpa using hdigits

-- Somebody who asks for the way, and takes the left one.
def crossroads : Session where
  activity :=
    { id := "walk"
      operations := [
        { id := "way", kind := .selectOperation [] none },
        { id := "left", immediate := false, kind := .message "to the left" },
        { id := "right", immediate := false, kind := .message "to the right" }] }
  world := Dict.empty
  dice := .highest

theorem suspension_protocol_crossroads :
    Unrepeated Ticket.numbered crossroads ∧ ∃ report s',
      (crossroads.after [({ actor := "hero" }, .start none)]).call { actor := "hero" }
        (.resume "T1" (.choice "left")) = (.ok report, s') ∧
      (∀ token prompt, report.status = .suspended token prompt ↔
        ∃ p, s'.activity.pending = some p ∧ p.token = token ∧ p.prompt = prompt) ∧
      Refuses "T1" (s'.after [({ actor := "hero" }, .start (some "way"))]) := by
  have hunrepeated : Unrepeated Ticket.numbered crossroads :=
    ⟨numbered_token_injective, by simp [crossroads]⟩
  have hok : ((crossroads.after [({ actor := "hero" }, .start none)]).call { actor := "hero" }
      (.resume "T1" (.choice "left"))).1.isOk = true := by cbv
  rcases hcall : (crossroads.after [({ actor := "hero" }, .start none)]).call { actor := "hero" }
      (.resume "T1" (.choice "left")) with ⟨result, s'⟩
  cases result with
  | error failure => simp [hcall, Except.isOk, Except.toBool] at hok
  | ok report =>
    have h := suspension_protocol hunrepeated [({ actor := "hero" }, .start none)] (by simp) rfl
      hcall
    exact ⟨hunrepeated, report, s', rfl, h.1, h.2.2 _ _ rfl _ (by simp)⟩

end Tabletop.Session
