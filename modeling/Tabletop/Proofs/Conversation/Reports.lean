import Mathlib
import Tabletop.Conversation
import Tabletop.Proofs.Session.Calls

-- The report of a conversation and the reports that it is made of.
namespace Tabletop

-- The reports of an invocation up to now: that of its first walk, and one for every answer that was
-- accepted. An answer that is not accepted is not reported on, and the user hears why.
inductive Conversation.Parts (setting : Setting) (origin : Option String) (s : Session) :
    List Report → Session → Prop where
  | started {report : Report} {s' : Session} :
    s.start setting origin = (.ok report, s') → Parts setting origin s [report] s'
  | resumed {parts : List Report} {report : Report} {s' s'' : Session} (token : String)
    (answer : Answer) : Parts setting origin s parts s' →
    s'.resume setting token answer = (.ok report, s'') →
    Parts setting origin s (parts ++ [report]) s''
  | rejected {parts : List Report} {s' s'' : Session} {id message : String} (token : String)
    (answer : Answer) : Parts setting origin s parts s' →
    s'.resume setting token answer = (.error (.rejected id message), s'') →
    Parts setting origin s parts (s''.emit (.notification .warning message))

-- The report of a conversation is made of these: all but the last were waiting for an answer.
structure Report.MadeOf (r : Report) (parts : List Report) (last : Report) : Prop where
  status : r.status = last.status
  steps : r.steps = (parts ++ [last]).flatMap Report.steps
  halts : r.halts = (parts ++ [last]).flatMap Report.halts
  waiting : ∀ part ∈ parts, part.isSuspended = true

variable {setting : Setting} {origin : Option String} {s s' : Session} {parts : List Report}
  {report last : Report}

theorem Report.MadeOf.followedBy (h : report.MadeOf parts last)
    (hwaiting : report.isSuspended = true) (next : Report) :
    (report.followedBy next).MadeOf (parts ++ [last]) next := by
  refine ⟨rfl, ?_, ?_, ?_⟩
  · simp [Report.followedBy, h.steps]
  · simp [Report.followedBy, h.halts]
  · simp only [List.forall_mem_append, List.mem_singleton, forall_eq]
    refine ⟨h.waiting, ?_⟩
    rwa [Report.isSuspended, ← h.status]

-- A report that waits no more tells the truth about its last part, hence about all of them when
-- nothing halted in the earlier parts or something did in the last one.
theorem Report.MadeOf.truthful_iff (h : report.MadeOf parts last) (hlast : last.Truthful) :
    report.Truthful ↔ (∀ part ∈ parts, part.halts = []) ∨ last.halts ≠ [] := by
  rw [Report.Truthful, h.status, hlast, h.halts]
  by_cases hhalts : last.halts = []
  · by_cases hparts : ∀ part ∈ parts, part.halts = []
    · exact iff_of_true (by simp [hhalts, List.flatMap_eq_nil_iff.2 hparts]) (.inl hparts)
    · have hne : parts.flatMap Report.halts ≠ [] := by
        rwa [ne_eq, List.flatMap_eq_nil_iff]
      simp [hhalts, hne, hparts]
  · simp [hhalts]

namespace Conversation

variable {c c' : Conversation} {token : String} {answer : Answer}

theorem truthful_of_call (call : Session.Call) (h : s.call setting call = (.ok report, s'))
    (hfinished : report.isSuspended = false) : report.Truthful := by
  obtain ⟨report', s'', hcall, hreported, -⟩ | ⟨failure, s'', hcall, -⟩ :=
    Session.call_cases setting s call
  · obtain ⟨rfl, rfl⟩ : report' = report ∧ s'' = s' := by simpa [h] using hcall.symm
    cases hreported with
    | finished htruthful => exact htruthful
    | waiting p hstatus => simp [Report.isSuspended, hstatus] at hfinished
  · simp [h] at hcall

theorem Parts.truthful (h : Parts setting origin s parts s') :
    ∀ part ∈ parts, part.isSuspended = false → part.Truthful := by
  induction h with
  | started hstart =>
    simp only [List.mem_singleton, forall_eq]
    exact truthful_of_call (.start origin) hstart
  | resumed token answer _ hresume ih =>
    simp only [List.forall_mem_append, List.mem_singleton, forall_eq]
    exact ⟨ih, truthful_of_call (.resume token answer) hresume⟩
  | rejected _ _ _ _ ih => exact ih

-- Whether a conversation reports what its parts have reported.
def Accounted (setting : Setting) (origin : Option String) (s : Session) (c : Conversation) :
    Prop :=
  ∃ parts last, Parts setting origin s (parts ++ [last]) c.session ∧ c.report.MadeOf parts last

theorem Accounted.reply (hc : Accounted setting origin s c)
    (hwaiting : c.report.isSuspended = true)
    (h : c.reply setting token answer = (.ok (), c')) : Accounted setting origin s c' := by
  obtain ⟨parts, last, hparts, hmade⟩ := hc
  simp only [Conversation.reply] at h
  split at h
  · next next s' hresume =>
    cases h
    exact ⟨parts ++ [last], next, .resumed token answer hparts hresume,
      hmade.followedBy hwaiting next⟩
  · next id message s' hresume =>
    cases h
    exact ⟨parts, last, .rejected token answer hparts hresume, hmade⟩
  · cases h

variable {m : Type → Type} [Monad m] [LawfulMonad m]

-- Whether the report that was given, if any, is that of parts of which none waits for an answer.
def Told (setting : Setting) (origin : Option String) (s : Session)
    (told : Option (Except Failure Report) × Session) : Prop :=
  ∀ report, told.1 = some (.ok report) → report.isSuspended = false ∧
    Accounted setting origin s { session := told.2, report }

theorem told_of_finished (hc : Accounted setting origin s c)
    (hfinished : c.report.isSuspended = false) :
    Told setting origin s (some (.ok c.report), c.session) := by
  rintro report ⟨⟩
  exact ⟨hfinished, hc⟩

theorem goOn_told (audience : Audience m) (limit : Nat) (c : Conversation)
    (hc : Accounted setting origin s c) :
    SatisfiesM (Told setting origin s) (goOn setting audience limit c) := by
  induction limit generalizing c with
  | zero =>
    unfold goOn
    cases hstatus : c.report.status with
    | suspended token prompt => exact .pure (by simp [Told])
    | completed => exact .pure (told_of_finished hc (by simp [Report.isSuspended, hstatus]))
    | halted => exact .pure (told_of_finished hc (by simp [Report.isSuspended, hstatus]))
  | succ limit ih =>
    unfold goOn
    cases hstatus : c.report.status with
    | suspended token prompt =>
      have hwaiting : c.report.isSuspended = true := by simp [Report.isSuspended, hstatus]
      dsimp only
      -- Whatever the answer is, by the audience or for want of patience.
      split
      all_goals
        refine .bind_pre (.of_true fun answer => ?_)
        split
        · exact .pure (by simp [Told])
        · next answer =>
          refine .bind_pre (.of_true fun _ => ?_)
          split
          · next hreply => exact ih _ (hc.reply hwaiting (Prod.ext hreply rfl))
          · exact .pure (by simp [Told])
    | completed => exact .pure (told_of_finished hc (by simp [Report.isSuspended, hstatus]))
    | halted => exact .pure (told_of_finished hc (by simp [Report.isSuspended, hstatus]))

-- The report of a conversation is that of its parts, of which the last one alone tells the status.
-- So it says that it halted when the last part did, and tells the truth about all halts exactly
-- when there is none before the last part or some in it.
theorem converse_report (setting : Setting) (origin : Option String) (audience : Audience m)
    (limit : Nat) (s : Session) :
    SatisfiesM (fun told => ∀ report, told.1 = some (.ok report) →
        ∃ parts last, Parts setting origin s (parts ++ [last]) told.2 ∧
          report.steps = (parts ++ [last]).flatMap Report.steps ∧
          report.halts = (parts ++ [last]).flatMap Report.halts ∧
          report.isSuspended = false ∧ (∀ part ∈ parts, part.isSuspended = true) ∧
          (report.status = .halted ↔ last.halts ≠ []) ∧
          (report.status = .completed ↔ last.halts = []) ∧
          (((report.status = .halted ↔ report.halts ≠ []) ∧
              (report.status = .completed ↔ report.halts = [])) ↔
            (∀ part ∈ parts, part.halts = []) ∨ last.halts ≠ []))
      (s.converse setting origin audience limit) := by
  have htold : SatisfiesM (Told setting origin s) (s.converse setting origin audience limit) := by
    unfold Session.converse
    refine .bind_pre (.of_true fun _ => ?_)
    split
    · exact .pure (by simp [Told])
    · next report hstart =>
      refine goOn_told audience limit _ ⟨[], report, ?_, ?_⟩
      · exact .started (Prod.ext hstart rfl)
      · exact ⟨rfl, by simp, by simp, by simp⟩
  refine htold.imp fun {told} htold report hreport => ?_
  obtain ⟨hfinished, parts, last, hparts, hmade⟩ := htold report hreport
  have hlast : last.Truthful := by
    refine hparts.truthful last (by simp) ?_
    rwa [Report.isSuspended, ← hmade.status]
  obtain ⟨hhalted, hcompleted⟩ := (Report.truthful_iff last).1 hlast
  refine ⟨parts, last, hparts, hmade.steps, hmade.halts, hfinished, hmade.waiting, ?_, ?_, ?_⟩
  · rw [hmade.status, hhalted]
  · rw [hmade.status, hcompleted]
  · rw [← Report.truthful_iff, hmade.truthful_iff hlast]

-- An audience that answers from a script.
def prompter : Audience (StateM Script) where
  hear _ := pure ()
  answer p := fun script => (.ok (script.answer p).1, (script.answer p).2)

-- A question for each of two goblins.
def goblins : Session where
  activity :=
    { id := "parley"
      operations := [
        { id := "each", kind := .target .each },
        { id := "ask", kind := .selectOperation [] none },
        { id := "end", immediate := false, kind := .message "done" }] }
  world := World.ofList [{ id := "g1", name := "Goblin" }, { id := "g2", name := "Goblin" }]
  dice := .highest

def parley : Setting := { actor := "hero", targets := ["g1", "g2"] }

def replies : Script := ⟨[.dismiss, .choice "end"], []⟩

-- The first goblin is dismissed and the second one answered: it is reported that the conversation
-- was completed, although a branch halted.
theorem converse_report_goblins :
    ∃ report s' script, (goblins.converse parley none prompter 2).run replies =
        ((some (.ok report), s'), script) ∧
      report.status = .completed ∧ report.halts ≠ [] ∧
      ∃ parts last, Parts parley none goblins (parts ++ [last]) s' ∧ last.halts = [] ∧
        ¬ ∀ part ∈ parts, part.halts = [] := by
  have hrun : ((goblins.converse parley none prompter 2).run replies).1.1.map
      (fun result => match result with
        | .ok report => decide (report.status = .completed) && !report.halts.isEmpty
        | .error _ => false) = some true := by
    cbv
    unfold goOn
    cbv
    unfold goOn
    cbv
  rcases htold : (goblins.converse parley none prompter 2).run replies with
    ⟨⟨_ | failure | report, s'⟩, script⟩
  · simp [htold] at hrun
  · simp [htold] at hrun
  · obtain ⟨hstatus, hhalts⟩ : report.status = .completed ∧ report.halts ≠ [] := by
      simpa [htold] using hrun
    have hreport := SatisfiesM_Id_eq.1 (SatisfiesM_StateT_eq.1
      (converse_report parley none prompter 2 goblins) replies)
    obtain ⟨parts, last, hparts, -, -, -, -, -, hcompleted, htruth⟩ :=
      hreport report (by rw [htold])
    have hlast : last.halts = [] := hcompleted.1 hstatus
    refine ⟨report, s', script, rfl, hstatus, hhalts, parts, last, ?_, hlast, fun hnone => ?_⟩
    · rwa [htold] at hparts
    · exact hhalts ((htruth.2 (.inl hnone)).2.1 hstatus)

end Conversation

end Tabletop
