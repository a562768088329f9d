import Tabletop.Proofs.Document.Finite
import Tabletop.Proofs.Session.Course
import Tabletop.Proofs.Session.Relating
import Tabletop.Proofs.Walk.Stock

-- Whether what a session leaves of an activity can be loaded again.
namespace Tabletop

-- Whether an activity was read from a text, be it on its own or as it was saved.
def Activity.FromText (a : Activity) : Prop :=
  (∃ text, ofText? text = some a) ∨ ∃ text, Archive.decode text = .ok a

theorem Activity.FromText.finite {a : Activity} (h : a.FromText) : a.ledger.Finite := by
  obtain ⟨text, h⟩ | ⟨text, h⟩ := h
  · exact finite_ofText? h
  · exact Archive.finite_decode h

namespace Session

theorem within_stocking (setting : Setting) (plan : Plan) : Within setting plan .stocking where
  visits _ _ := ⟨_, Visit.within_stocking _⟩
  binds _ _ := Effect.stocking_of_eq rfl rfl
  marks _ _ hpool := Effect.stocking_tell (Event.sound_of_not_changesPool hpool)

-- A call adds events. The pools are finite afterwards exactly when they were before and every change
-- that the events tell of leaves something finite.
theorem stocking_call (setting : Setting) (c : Call) (s : Session) :
    ∃ more, (s.call setting c).2.events = s.events ++ more ∧
      ((s.call setting c).2.activity.ledger.Finite ↔
        s.activity.ledger.Finite ∧ ∀ e ∈ more, e.Sound) :=
  conducts_call (within_stocking setting s.activity.toPlan).conducts c

-- Whether a deed is done to the activity in memory.
def Deed.InMemory : Deed → Prop
  | .reload _ => False
  | _ => True

theorem stocking_perform {d : Deed} (hd : d.InMemory) (s : Session) :
    ∃ more, (s.perform d).events = s.events ++ more ∧
      ((∀ e ∈ more, e.Sound) → s.activity.ledger.Finite →
        (s.perform d).activity.ledger.Finite) := by
  cases d with
  | call setting c =>
    obtain ⟨more, hevents, hfinite⟩ := stocking_call setting c s
    exact ⟨more, hevents, fun hsound hledger => hfinite.2 ⟨hledger, hsound⟩⟩
  | reset trigger => exact ⟨[], (List.append_nil _).symm, fun _ hledger => hledger.reset trigger⟩
  | clearPending => exact ⟨[], (List.append_nil _).symm, fun _ hledger => hledger⟩
  | reload savedAt => exact hd.elim
  | meanwhile world dice => exact ⟨[], (List.append_nil _).symm, fun _ hledger => hledger⟩

theorem Course.stocking {s t : Session} (h : s.Course (fun _ d => d.InMemory) t) :
    ∃ more, t.events = s.events ++ more ∧
      ((∀ e ∈ more, e.Sound) → s.activity.ledger.Finite → t.activity.ledger.Finite) := by
  induction h with
  | here => exact ⟨[], (List.append_nil _).symm, fun _ hledger => hledger⟩
  | @next t d hd _ ih =>
    obtain ⟨more, hevents, hfinite⟩ := ih
    obtain ⟨others, hperformed, hstep⟩ := stocking_perform hd t
    refine ⟨more ++ others, by rw [hperformed, hevents, List.append_assoc], fun hsound hledger => ?_⟩
    rw [List.forall_mem_append] at hsound
    exact hstep hsound.2 (hfinite hsound.1 hledger)

-- The pools of an activity that was read stay finite as long as no event tells of a pool that it has
-- something left that is not. A call breaks that exactly when one of its events does. What can be
-- kept apart from its pools is loaded as it was saved while they are finite, and never again once
-- one of them is not.
theorem stock_loaded {s t : Session} (hread : s.activity.FromText)
    (ht : s.Course (fun _ d => d.InMemory) t) :
    (∃ events, t.events = s.events ++ events ∧
      ((∀ e ∈ events, e.Sound) → t.activity.ledger.Finite)) ∧
    (∀ setting c, ∃ events, (t.call setting c).2.events = t.events ++ events ∧
      ((t.call setting c).2.activity.ledger.Finite ↔
        t.activity.ledger.Finite ∧ ∀ e ∈ events, e.Sound)) ∧
    (t.activity.Keepable → ∀ savedAt,
      (t.activity.ledger.Finite → t.activity.toJson.depth < Json.depthLimit →
        Archive.decode (Archive.encode savedAt t.activity) = .ok t.activity) ∧
      (¬ t.activity.ledger.Finite →
        Archive.decode (Archive.encode savedAt t.activity) = .error .malformed)) := by
  obtain ⟨events, hevents, hfinite⟩ := ht.stocking
  refine ⟨⟨events, hevents, fun hsound => hfinite hsound hread.finite⟩,
    fun setting c => t.stocking_call setting c, fun hkeepable savedAt => ⟨?_, ?_⟩⟩
  · intro hledger hdepth
    rw [Archive.decode_encode (hkeepable.storable hledger), if_pos hdepth]
  · intro hledger
    exact Archive.decode_encode_of_not_finite hkeepable hledger savedAt

-- A pool as large as the luck of the hero, which is told to be boundless.
def luck : Operation := { id := "luck", kind := .createResource "Luck" "@luck" false .never }

def draw : Session where
  activity := { id := "draw", operations := [luck] }
  world := World.ofList [{ id := "hero", name := "Hero", system := .obj [("luck", .str "inf")] }]
  dice := .highest

def lone : Setting := { actor := "hero" }

theorem keepable_draw {a : Activity} (hplan : a.toPlan = draw.activity.toPlan)
    (hrecords : ∀ entry ∈ Dict.entries a.records, entry.2.Storable)
    (hledger : ∀ entry ∈ Dict.entries a.ledger, entry.2.Keepable) (hpending : a.pending = none) :
    a.Keepable where
  system := by
    rw [hplan]
    exact ⟨⟨List.Pairwise.nil, trivial⟩, trivial⟩
  operations := by
    rw [hplan]
    simp only [draw, List.forall_mem_cons]
    exact ⟨⟨by decide, trivial⟩, by simp⟩
  records := hrecords
  ledger := hledger
  pending := by simp [hpending]

theorem fromText_draw : draw.activity.FromText := by
  have hfinite : draw.activity.ledger.Finite := fun _ _ hfound => nomatch hfound
  have hkeepable : draw.activity.Keepable :=
    keepable_draw rfl (fun _ hentry => nomatch hentry) (fun _ hentry => nomatch hentry) rfl
  have hdepth : draw.activity.toJson.depth < Json.depthLimit := by decide +kernel
  refine .inr ⟨Archive.encode default draw.activity, ?_⟩
  rw [Archive.decode_encode (hkeepable.storable hfinite), if_pos hdepth]

-- What is recorded of the pool are names with flags and nulls.
theorem storable_fields {r : Records} {id : String}
    (hids : (Dict.entries r).map Prod.fst = [id])
    (hnames : (r.fields id).map Prod.fst = ["created", "maximum", "value"])
    (hplain : (r.fields id).all (fun m => (Document.flag m.2).isSome || m.2.isNull) = true) :
    ∀ entry ∈ Dict.entries r, entry.2.Storable := by
  obtain ⟨⟨k, j⟩, hentries, hk⟩ := List.map_eq_singleton_iff.1 hids
  obtain rfl : k = id := hk
  have hfound : Dict.find? r k = some j := Dict.mem_entries_iff.1 (by simp [hentries])
  rw [hentries, List.forall_mem_singleton]
  cases j with
  | obj members =>
    have hfields : r.fields k = members := by rw [Records.fields, hfound]
    rw [hfields] at hnames hplain
    have hascending : Entries.Ascending members := by
      rw [Entries.Ascending, hnames]
      decide
    have hmembers : ∀ m ∈ members, m.2.Storable := by
      intro m hm
      have hm := List.all_eq_true.1 hplain m hm
      cases hj : m.2 <;> simp [hj, Document.flag, Json.isNull] at hm
      · exact ⟨trivial, trivial⟩
      · exact ⟨trivial, trivial⟩
    exact ⟨⟨hascending, Json.settledMembers_iff.2 fun m hm => (hmembers m hm).settled⟩,
      Json.legibleMembers_iff.2 fun m hm => (hmembers m hm).legible⟩
  | _ =>
    unfold Records.fields at hnames
    rw [hfound] at hnames
    simp at hnames

-- The visit makes a pool without bounds and records it, as far as there is a form for its numbers.
theorem visit_luck : ∃ run, (Visit.mk lone draw.activity.toPlan luck).visit none false
      draw.begun.run = (.onward, run) ∧
    run.ledger.entries =
      [("luck", ⟨"luck", "Luck", "@luck", .infinite false, .infinite false, false, .never⟩)] ∧
    ∀ entry ∈ Dict.entries run.records, entry.2.Storable := by
  have honward : ((Visit.mk lone draw.activity.toPlan luck).visit none false
      draw.begun.run).1.ctorIdx = Move.onward.ctorIdx := by decide +kernel
  have hledger : ((Visit.mk lone draw.activity.toPlan luck).visit none false
      draw.begun.run).2.ledger.entries =
      [("luck", ⟨"luck", "Luck", "@luck", .infinite false, .infinite false, false, .never⟩)] := by
    decide +kernel
  have hids : (Dict.entries ((Visit.mk lone draw.activity.toPlan luck).visit none false
      draw.begun.run).2.records).map Prod.fst = ["luck"] := by decide +kernel
  have hnames : (((Visit.mk lone draw.activity.toPlan luck).visit none false
      draw.begun.run).2.records.fields "luck").map Prod.fst =
      ["created", "maximum", "value"] := by decide +kernel
  have hplain : (((Visit.mk lone draw.activity.toPlan luck).visit none false
      draw.begun.run).2.records.fields "luck").all
      (fun m => (Document.flag m.2).isSome || m.2.isNull) = true := by decide +kernel
  generalize (Visit.mk lone draw.activity.toPlan luck).visit none false draw.begun.run = visited
    at honward hledger hids hnames hplain ⊢
  obtain ⟨move, run⟩ := visited
  cases move with
  | onward => exact ⟨run, rfl, hledger, storable_fields hids hnames hplain⟩
  | ended | forked | waiting => cases honward

theorem start_draw : ∃ run, (draw.start lone none).2.activity = (draw.begun.keep run).activity ∧
    run.ledger.entries =
      [("luck", ⟨"luck", "Luck", "@luck", .infinite false, .infinite false, false, .never⟩)] ∧
    ∀ entry ∈ Dict.entries run.records, entry.2.Storable := by
  have herrors : draw.activity.errors = [] := by cbv
  have horder : draw.activity.toPlan.order = [luck] := List.mergeSort_singleton luck
  have hluck : draw.activity.toPlan.order[0]? = some luck := by rw [horder]; rfl
  obtain ⟨run, hvisit, hledger, hrecords⟩ := visit_luck
  have hgoes := Run.next_of_visit (c := ⟨0, none, [], false⟩) hluck hvisit
  have hended : (draw.activity.toPlan.order.length) = 1 := by rw [horder]; rfl
  have hwalk : draw.begun.run.walk lone draw.activity.toPlan ⟨0, none, [], false⟩ =
      (none, run) := by
    have hlast := Run.walk_ended lone draw.activity.toPlan none false run
    rw [hended] at hlast
    rw [Run.walk_of_goes hgoes]
    exact hlast
  rw [start_of_walk herrors hwalk]
  exact ⟨run, rfl, hledger, hrecords⟩

-- The pool is not finite, an event of the run tells of that, and the activity is never loaded again.
theorem stock_loaded_draw :
    let drawn := (draw.start lone none).2
    draw.activity.FromText ∧ draw.Course (fun _ d => d.InMemory) drawn ∧
      drawn.activity.Keepable ∧ (∃ e ∈ drawn.events, ¬ e.Sound) ∧
      ∀ savedAt, Archive.decode (Archive.encode savedAt drawn.activity) = .error .malformed := by
  obtain ⟨run, hactivity, hledger, hrecords⟩ := start_draw
  have hcourse : draw.Course (fun _ d => d.InMemory) (draw.start lone none).2 :=
    .next (.call lone (.start none)) trivial .here
  have hboundless : ¬ (draw.start lone none).2.activity.ledger.Finite := by
    intro hfinite
    have hfound : Dict.find? run.ledger "luck" =
        some ⟨"luck", "Luck", "@luck", .infinite false, .infinite false, false, .never⟩ := by
      rw [Dict.find?, hledger]
      rfl
    rw [hactivity] at hfinite
    exact absurd (hfinite "luck" _ hfound).1 Bool.false_ne_true
  have hkeepable : (draw.start lone none).2.activity.Keepable := by
    rw [hactivity]
    refine keepable_draw rfl hrecords (fun entry hentry => ?_) rfl
    change entry ∈ run.ledger.entries at hentry
    rw [hledger, List.mem_singleton] at hentry
    subst hentry
    exact ⟨fun h => absurd h Bool.false_ne_true, fun h => absurd h Bool.false_ne_true⟩
  obtain ⟨⟨events, hevents, hsound⟩, -, hloaded⟩ := stock_loaded fromText_draw hcourse
  have hunsound : ∃ e ∈ (draw.start lone none).2.events, ¬ e.Sound := by
    refine Classical.byContradiction fun hnone => hboundless (hsound fun e he => ?_)
    refine Classical.byContradiction fun hunsound => hnone ⟨e, ?_, hunsound⟩
    exact hevents ▸ List.mem_append_right _ he
  exact ⟨fromText_draw, hcourse, hkeepable, hunsound,
    fun savedAt => (hloaded hkeepable savedAt).2 hboundless⟩

end Session

end Tabletop
