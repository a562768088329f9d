import Tabletop.Archive
import Tabletop.Proofs.Document.Activity
import Tabletop.Session

-- A saved activity is the one that is loaded.
namespace Tabletop

open Document Entries Json

theorem SavedActivity.stored {saved : SavedActivity} (h : saved.activity.Storable) :
    Stored read saved.toJson saved where
  legible := legible_record (by simp [(Activity.stored h).legible])
  reads := by
    rw [read, toJson, record_record]
    simp [last?, text, (Activity.stored h).reads]

theorem SavedActivity.depth_toJson (saved : SavedActivity) :
    saved.toJson.depth = saved.activity.toJson.depth + 1 := by
  have hmembers : saved.toJson = .obj
      [("activity", saved.activity.toJson), ("savedAt", .str saved.savedAt)] := rfl
  rw [hmembers]
  simp [depth, depthMembers]

namespace Archive

-- The text of a saved activity adds a level to the document of the activity.
theorem decode_encode {a : Activity} (h : a.Storable) (savedAt : Timestamp) :
    decode (encode savedAt a) =
      if a.toJson.depth < depthLimit then .ok a else .error .malformed := by
  have hstored : Stored SavedActivity.read (SavedActivity.mk a savedAt.offsetText).toJson
      ⟨a, savedAt.offsetText⟩ := SavedActivity.stored h
  rw [decode, encode, read?_indented hstored.legible, SavedActivity.depth_toJson]
  by_cases hdepth : a.toJson.depth < depthLimit
  · rw [if_pos hdepth, if_pos (Nat.succ_le_of_lt hdepth)]
    simp [hstored.reads]
  · rw [if_neg hdepth, if_neg (fun hle => hdepth (Nat.lt_of_succ_le hle))]
    rfl

-- A pool that is not finite makes a text of which nothing is read.
theorem decode_encode_of_not_finite {a : Activity} (h : a.Keepable) (hledger : ¬ a.ledger.Finite)
    (savedAt : Timestamp) : decode (encode savedAt a) = .error .malformed := by
  have hlegible : (SavedActivity.mk a savedAt.offsetText).toJson.Legible :=
    legible_record (by simp [h.legible])
  have hread : Activity.read a.toJson = none := by
    rw [h.read_toJson, Ledger.read_eq_none hledger, Option.map_none]
  have hsaved : SavedActivity.read (SavedActivity.mk a savedAt.offsetText).toJson = none := by
    rw [SavedActivity.read, SavedActivity.toJson, record_record]
    simp [last?, hread]
  rw [decode, encode, read?_indented hlegible]
  split
  · next saved hfound =>
    split at hfound
    · simp [hsaved] at hfound
    · cases hfound
  · rfl

end Archive

-- A suspended activity that is saved and loaded again is the same one, and every answer to it goes
-- the same way. Only an activity that nests as deep as a document may is never loaded again, for
-- its file nests a level deeper.
theorem Session.resume_loaded {s : Session} (h : s.activity.Storable) (savedAt : Timestamp) :
    (s.activity.toJson.depth < depthLimit →
      ∃ loaded, Archive.decode (Archive.encode savedAt s.activity) = .ok loaded ∧
        loaded = s.activity ∧ ∀ setting token answer,
          ({ s with activity := loaded }).resume setting token answer =
            s.resume setting token answer) ∧
    (depthLimit ≤ s.activity.toJson.depth →
      Archive.decode (Archive.encode savedAt s.activity) = .error .malformed) := by
  rw [Archive.decode_encode h]
  refine ⟨fun hdepth => ?_, fun hdeep => ?_⟩
  · exact ⟨s.activity, if_pos hdepth, rfl, fun _ _ _ => rfl⟩
  · exact if_neg (Nat.not_lt.2 hdeep)

namespace Archive

theorem legible_three : (3 : Binary64).Legible := by
  have htext : (3 : Binary64).documentText = "3.0" := by decide +kernel
  have hvalue : realValue? false ['3'] ['0'] 0 = some 3 := by decide +kernel
  have hrun : Binary64.digitRun ['3', '.', '0'] = (['3'], ['.', '0']) := by decide
  have hfraction : fraction? ['.', '0'] = some (some ['0'], []) := by decide
  refine ⟨by decide +kernel, ?_⟩
  rw [htext]
  show unsigned? false ['3', '.', '0'] = _
  simp [unsigned?, hrun, hfraction, exponent?, numberOf?, hvalue]

-- Goblins on both sides of a fork within a fork, and a number asked of the first of them.
def goblin (id : String) : Snapshot :=
  ⟨id, "Goblin", .hostile, Dict.ofList [("hp.value", .int 7), ("speed", .float 3)]⟩

def ambush : Activity where
  id := "ambush"
  operations := [
    { id := "outer", kind := .target .each },
    { id := "inner", priority := 1, kind := .target .each },
    { id := "aim", priority := 2, kind := .variable "Distance" (some 3) none none }]
  records := Dict.ofList [("outer", .obj [("value", .int 2)])]
  ledger := Dict.ofList [("arrows", ⟨"arrows", "Arrows", "3", 3, 3, false, .never⟩)]
  charged := Names.ofList ["aim"]
  pending := some
    { token := "T1", operation := "aim", position := 2
      prompt := ⟨"Distance", .number (some 3) none none⟩
      target := some (goblin "g1")
      forks := [⟨"inner", 2, [goblin "g2"], some (goblin "g3")⟩, ⟨"outer", 1, [], none⟩]
      createdAt := .ofNanoseconds 1700000000123456789 }

theorem storable_goblin (id : String) : (goblin id).Storable := by
  have hentries : (goblin id).rollData.entries = [("hp.value", .int 7), ("speed", .float 3)] := rfl
  rw [Snapshot.Storable, hentries]
  simp only [List.forall_mem_cons]
  have hseven : Whole64 7 := by decide
  exact ⟨⟨trivial, hseven⟩, ⟨trivial, legible_three⟩, by simp⟩

theorem storable_ambush : ambush.Storable where
  system := ⟨⟨List.Pairwise.nil, trivial⟩, trivial⟩
  operations := by
    have hthree : ∀ x ∈ some (3 : Binary64), x.Legible := by simp [legible_three]
    simp only [ambush, List.forall_mem_cons]
    exact ⟨⟨by decide, trivial⟩, ⟨by decide, trivial⟩,
      ⟨by decide, hthree, by simp, by simp⟩, by simp⟩
  records := by
    have hentries : Dict.entries ambush.records = [("outer", .obj [("value", .int 2)])] := rfl
    have htwo : Whole64 2 := by decide
    rw [hentries]
    simp only [List.forall_mem_cons]
    exact ⟨⟨⟨List.pairwise_singleton _ _, trivial, trivial⟩, htwo, trivial⟩, by simp⟩
  ledger := by
    have hentries : Dict.entries ambush.ledger =
        [("arrows", ⟨"arrows", "Arrows", "3", 3, 3, false, .never⟩)] := rfl
    rw [hentries]
    simp only [List.forall_mem_cons]
    exact ⟨⟨legible_three, legible_three⟩, by simp⟩
  pending := by
    have hthree : ∀ x ∈ some (3 : Binary64), x.Legible := by simp [legible_three]
    have hcreatedAt : (Timestamp.ofNanoseconds 1700000000123456789).Legible := by
      unfold Timestamp.Legible
      decide +kernel
    have hinner : Fork.Storable ⟨"inner", 2, [goblin "g2"], some (goblin "g3")⟩ :=
      ⟨by decide, by simp [storable_goblin], by simp [storable_goblin]⟩
    have houter : Fork.Storable ⟨"outer", 1, [], none⟩ := ⟨by decide, by simp, by simp⟩
    intro p hp
    obtain rfl : _ = p := by simpa [ambush] using hp
    exact ⟨by decide, ⟨hthree, by simp, by simp⟩, by simp [storable_goblin],
      by simp [hinner, houter], hcreatedAt⟩

end Archive

theorem Session.resume_loaded_ambush :
    let s : Session := { activity := Archive.ambush, world := Dict.empty, dice := .highest }
    s.activity.Storable ∧ ∃ loaded,
      Archive.decode (Archive.encode default s.activity) = .ok loaded ∧
        loaded = s.activity ∧ ∀ setting token answer,
          ({ s with activity := loaded }).resume setting token answer =
            s.resume setting token answer := by
  have hdepth : Archive.ambush.toJson.depth < depthLimit := by decide +kernel
  exact ⟨Archive.storable_ambush, (resume_loaded Archive.storable_ambush default).1 hdepth⟩

end Tabletop
