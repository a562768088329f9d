import Tabletop.Proofs.Step.Frame
import Tabletop.Proofs.Walk.Descent
import Tabletop.Proofs.Walk.Owing

-- Walks aim at nobody but those who were selected, or bound or waited for when they began, and change
-- nobody else.
namespace Tabletop

namespace Visit

open Act

variable {v : Visit} {aimed : String → Prop} {target : Option String} {run : Run}

theorem flags_of_draws {actor : Entity} {draws : List Draw} {changes : List Change}
    (h : draws.mapM (v.draw actor) = .ok changes) :
    changes.filterMap Change.flag? = [] ∧ changes.filterMap Change.stock? = [] := by
  have hsets : ∀ change ∈ changes, change.flag? = none ∧ change.stock? = none := by
    refine forall_of_mapM_ok (fun d change hd => ?_) h
    simp only [draw] at hd
    split at hd
    · cases hd
    · cases hd
      exact ⟨rfl, rfl⟩
  exact ⟨List.filterMap_eq_nil_iff.2 fun change hchange => (hsets change hchange).1,
    List.filterMap_eq_nil_iff.2 fun change hchange => (hsets change hchange).2⟩

theorem framing_charge (hv : v.setting.Usual aimed) (run : Run) :
    (Effect.framing v.setting aimed [v.op]).Allows run.toStage (v.charge run).2.toStage := by
  have hcharging := v.charging run
  generalize v.charge run = charged at hcharging ⊢
  cases hcharging with
  | waived => exact Effect.refl _ _
  | refused hasides => exact framing_of_asides hasides
  | @paid actor points breath changes stage _ hpaid =>
    intro hs
    have hframed : run.world.Framed v.setting aimed [v.op] stage.world := by
      have hworld := hpaid.world
      split at hworld
      · rw [hworld]
        exact .refl _
      · obtain ⟨hflags, hstocks⟩ := flags_of_draws hpaid.drawn
        rw [hs.actor_id hpaid.read] at hworld
        refine (framing_own hv hworld ?_ (fun _ _ _ => ?_) hs).2
        · rw [hflags]
          exact List.forall_mem_nil _
        · rw [hstocks]
          exact List.forall_mem_nil _
    exact ⟨hpaid.records ▸ hs.aims, hframed⟩

theorem toggles_framing (hv : v.setting.Usual aimed) :
    v.Toggles (.framing v.setting aimed [v.op]) where
  toAsides := v.asides_framing aimed
  toggles s actor world hread hworld hs := by
    rw [hs.actor_id hread] at hworld
    refine framing_own hv hworld ?_ (fun _ _ _ => ?_) hs
    · simp [Change.flag?]
    · simp [Change.stock?]

-- Every part of a visit and of an answer keeps to the frame of the operation.
theorem relates_framing (hv : v.setting.Usual aimed) (target : Option String) :
    v.Relates target (Outcome.Fits v.op.kind.recorded) fun run run' =>
      (Effect.framing v.setting aimed [v.op]).Allows run.toStage run'.toStage where
  refl _ := Effect.refl _ _
  trans := Effect.trans _
  leaves _ h := h.fits
  begins run := (does_begin_framing hv run.toStage).1
  accepts run answer :=
    (doesAt_accept (uses_framing hv) v.failures_true (fun _ _ => trivial) (fun _ => trivial)
      (does_begin_framing hv run.toStage) answer).1
  charges := framing_charge hv
  toggles run := (does_toggle (F := fun _ _ => True) (toggles_framing hv) run.toStage).1
  starts _ hs := ⟨hs.aims, .refl _⟩
  forks _ _ hs := ⟨hs.aims, .refl _⟩
  skips _ _ hs := ⟨hs.aims, .refl _⟩
  halts _ _ _ hs := ⟨hs.aims, .refl _⟩
  completes _ _ hfits hs :=
    ⟨v.lasting_record (Records.lasting_aims aimed) hfits hs.aims, .refl _⟩

theorem orderly_of_framing {v : Visit} {run run' : Run}
    (hs : run.toStage.Orderly v.setting aimed)
    (h : (Effect.framing v.setting aimed [v.op]).Allows run.toStage run'.toStage) :
    run'.toStage.Orderly v.setting aimed :=
  hs.framed (h hs).2 (h hs).1

theorem orderly_announceStart (hs : run.toStage.Orderly v.setting aimed) :
    (v.announceStart target run).toStage.Orderly v.setting aimed :=
  ⟨hs.keyed, hs.distinct, hs.aims⟩

/-! Whom branches are for -/

theorem forked_of_settle {outcome : Except Failure Outcome} {branches : List Snapshot}
    (h : (v.settle target outcome run).1 = .forked branches) :
    ∃ o, outcome = .ok o ∧ o.result = .forked branches := by
  cases outcome with
  | error failure => cases h
  | ok o =>
    refine ⟨o, rfl, ?_⟩
    simp only [settle, follow] at h
    split at h <;> cases h
    assumption

theorem aimed_visit (hv : v.setting.Usual aimed) (hs : run.toStage.Orderly v.setting aimed)
    {selected : Bool} {branches : List Snapshot}
    (h : (v.visit target selected run).1 = .forked branches) : ∀ t ∈ branches, aimed t.id := by
  unfold visit at h
  split at h
  · cases h
  · split at h
    · cases h
    · split at h
      · cases h
      · next run' hpay =>
        have hpaid := framing_charge hv run
        rw [hpay] at hpaid
        have hs' := orderly_of_framing hs hpaid
        obtain ⟨o, hbegin, hbranches⟩ := forked_of_settle h
        exact aimed_begin hv (orderly_announceStart hs') (Prod.ext hbegin rfl) hbranches

theorem aimed_reply (hv : v.setting.Usual aimed) (hs : run.toStage.Orderly v.setting aimed)
    {answer : Answer} {branches : List Snapshot}
    (h : (Recursion.reply v target answer run).1 = .ok (.move (.forked branches))) :
    ∀ t ∈ branches, aimed t.id := by
  obtain ⟨outcome, destination, stage, haccept, hreply⟩ := exists_of_reply h nofun
  rw [hreply] at h
  obtain ⟨hforked, -⟩ := move_of_destined (Except.ok.inj h) nofun
  obtain ⟨o, ho, hbranches⟩ := forked_of_settle hforked
  cases ho
  exact aimed_accept hv (orderly_announceStart hs) haccept hbranches

end Visit

-- Whether all branches that are still owed are for those who may be aimed at.
def Cursor.Aims (aimed : String → Prop) (c : Cursor) : Prop := ∀ b ∈ c.owed, aimed b.target.id

def Turn.Aims (aimed : String → Prop) (turn : Turn) : Prop := ∀ b ∈ turn.owed, aimed b.target.id

namespace Cursor

variable {aimed : String → Prop} {c : Cursor}

theorem aims_after {size : Nat} {operation : String} {move : Move} (h : c.Aims aimed)
    (hmove : ∀ branches, move = .forked branches → ∀ t ∈ branches, aimed t.id) :
    (c.after size operation move).Aims aimed := by
  cases move with
  | onward | ended | waiting => exact h
  | forked branches =>
    change ∀ b ∈ (c.forked size operation branches).owed, aimed b.target.id
    unfold forked
    split
    · exact h
    · intro b hb
      obtain hb | hb := List.mem_append.1 hb
      · obtain ⟨t, ht, rfl⟩ := List.mem_map.1 hb
        exact hmove branches rfl t ht
      · exact h b hb

end Cursor

namespace Run

variable {setting : Setting} {plan : Plan} {aimed : String → Prop} {c : Cursor} {run : Run}

-- A turn leaves all in order, and owes branches only for those who may be aimed at.
theorem aims_next (hsetting : setting.Usual aimed) (hc : c.Aims aimed)
    (hs : run.toStage.Orderly setting aimed) :
    (run.next setting plan c).1.Aims aimed ∧
      ((run.next setting plan c).1 ≠ .ends →
        (run.next setting plan c).2.toStage.Orderly setting aimed) := by
  cases hop : plan.order[c.position]? with
  | some op =>
    let v := Visit.mk setting plan op
    rw [next_of_order hop]
    refine ⟨Cursor.aims_after hc fun branches hbranches =>
      Visit.aimed_visit (v := v) hsetting hs hbranches, fun _ => ?_⟩
    exact Visit.orderly_of_framing (v := v) hs
      ((Visit.relates_framing (v := v) hsetting c.targetId).visit c.selected run)
  | none =>
    rw [next_of_end hop, branch]
    split
    · next c' hbranch =>
      obtain ⟨b, howed, -, htarget⟩ := Cursor.flatMap_owes_of_nextBranch hbranch
      have hb : ∀ b' ∈ b :: c'.owed, aimed b'.target.id := howed ▸ hc
      rw [List.forall_mem_cons] at hb
      refine ⟨hb.2, fun _ => ⟨hs.keyed, hs.distinct, ?_⟩⟩
      refine Records.Bound.aims Records.bound_bind fun t ht => ?_
      rw [htarget] at ht
      cases ht
      exact hb.1
    · split <;> exact ⟨List.forall_mem_nil _, fun hne => absurd rfl hne⟩

-- At all places of a walk all is in order.
theorem orderly_places (hsetting : setting.Usual aimed) (hc : c.Aims aimed)
    (hs : run.toStage.Orderly setting aimed) :
    ∀ place ∈ run.places setting plan c, place.run.toStage.Orderly setting aimed := by
  intro place hplace
  refine (forall_places (I := fun c run => c.Aims aimed ∧ run.toStage.Orderly setting aimed)
    (fun c run c' run' h hturn => ?_) ⟨hc, hs⟩ place hplace).2
  obtain ⟨haims, horderly⟩ : (run.next setting plan c).1.Aims aimed ∧ _ :=
    aims_next hsetting h.1 h.2
  rw [hturn] at haims horderly
  exact ⟨haims, horderly nofun⟩

theorem orderly_stops (hsetting : setting.Usual aimed) (hc : c.Aims aimed)
    (hs : run.toStage.Orderly setting aimed) :
    ∀ stop ∈ run.stops setting plan c, stop.before.toStage.Orderly setting aimed := by
  intro stop hstop
  obtain ⟨place, hplace, hat⟩ := List.mem_filterMap.1 hstop
  obtain ⟨op, -, rfl⟩ := Option.map_eq_some_iff.1 hat
  exact orderly_places hsetting hc hs place hplace

end Run

-- So does an answer, wherever it leads.
theorem Session.aims_answered {v : Visit} {aimed : String → Prop} (hv : v.setting.Usual aimed)
    {c : Cursor} {answer : Answer} {run run' : Run} {turn : Turn} (hc : c.Aims aimed)
    (hs : run.toStage.Orderly v.setting aimed)
    (h : answered v c answer run = (.ok turn, run')) :
    turn.Aims aimed ∧ run'.toStage.Orderly v.setting aimed := by
  obtain ⟨way, hway, rfl, rfl⟩ := Visit.way_of_answered h
  refine ⟨?_, Visit.orderly_of_framing hs
    ((Visit.relates_framing hv c.targetId).reply answer run)⟩
  cases way with
  | move move =>
    exact Cursor.aims_after hc fun branches hbranches =>
      Visit.aimed_reply hv hs (hbranches ▸ hway)
  | jump position => exact hc

end Tabletop
