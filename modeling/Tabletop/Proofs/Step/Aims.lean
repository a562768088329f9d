import Tabletop.Proofs.Document.Target
import Tabletop.Proofs.Step.Prompts
import Tabletop.Proofs.World

-- Whom operations aim at: nobody but those who were selected, or the target that is bound.
namespace Tabletop

-- Whether updates of entities are all there is to it, items are used up in the usual way, and those
-- who are selected are among these.
structure Setting.Usual (aimed : String → Prop) (setting : Setting) : Prop where
  derive : ∀ e, setting.keeper.derive e = e
  useItem : setting.useItem = ItemRoutine.consume
  selected : ∀ id ∈ setting.targets, aimed id

-- Whether entities are kept under their ids, the ids of items tell them apart for who acts, and a
-- target that is bound is one of these.
structure Stage.Orderly (setting : Setting) (aimed : String → Prop) (s : Stage) : Prop where
  keyed : s.world.Keyed
  distinct : ∀ e, Dict.find? s.world setting.actor = some e → (e.items.map Item.id).Nodup
  aims : s.records.Aims aimed

theorem Stage.Orderly.actor_id {setting : Setting} {aimed : String → Prop} {s : Stage}
    (h : s.Orderly setting aimed) {actor : Entity}
    (hread : s.world.read setting.keeper setting.actor = .ok actor) : actor.id = setting.actor :=
  h.keyed _ _ (World.of_read hread)

namespace Visit

open Act

variable {v : Visit} {aimed : String → Prop} {s s' : Stage}

-- Everybody who is found was selected.
theorem of_run_selectedTargets {found : List Snapshot}
    (h : v.selectedTargets.run s = (.ok found, s')) :
    ∀ t ∈ found, ∃ id ∈ v.setting.targets, ∃ e, Dict.find? s.world id = some e ∧ t = e.snapshot := by
  unfold selectedTargets at h
  obtain ⟨looked, s₁, hlooked, hrun⟩ := of_run_bind h
  cases hrun
  have hfound : List.Forall₂ (fun id (found : Option Snapshot) =>
      ∀ t ∈ found, ∃ e, Dict.find? s.world id = some e ∧ t = e.snapshot) v.setting.targets looked := by
    refine (of_run_mapM (I := fun t => t.world = s.world) (fun id _ s₂ y s₃ hsame hy => ?_) rfl
      hlooked).2
    rw [run_get_bind] at hy
    split at hy
    · next e hread =>
      cases hy
      exact ⟨hsame, fun t ht => ⟨e, hsame ▸ World.of_read hread, by simpa using ht.symm⟩⟩
    · cases hy
      exact ⟨hsame, fun t ht => nomatch ht⟩
    · cases hy
  intro t ht
  obtain ⟨t', hmem, rfl⟩ := List.mem_filterMap.1 ht
  obtain ⟨id, hid, hread⟩ := exists_of_forall₂ hfound _ hmem
  exact ⟨id, hid, hread t rfl⟩

theorem aimed_selectedTargets (hv : v.setting.Usual aimed) (hs : s.Orderly v.setting aimed)
    {found : List Snapshot} (h : v.selectedTargets.run s = (.ok found, s')) :
    ∀ t ∈ found, aimed t.id := by
  intro t ht
  obtain ⟨id, hid, e, he, rfl⟩ := of_run_selectedTargets h t ht
  change aimed e.id
  rw [hs.keyed id e he]
  exact hv.selected id hid

theorem aimed_targets (hv : v.setting.Usual aimed) (hs : s.Orderly v.setting aimed)
    {targets : List Snapshot} (h : v.targets.run s = (.ok targets, s')) :
    ∀ t ∈ targets, aimed t.id := by
  rw [Visit.targets, run_get_bind] at h
  split at h
  · next t ht =>
    cases h
    exact List.forall_mem_singleton.2 (hs.aims t ht)
  · exact aimed_selectedTargets hv hs h

theorem aimed_recipientId (hv : v.setting.Usual aimed) (hs : s.Orderly v.setting aimed)
    {recipient : Recipient} {id : String} (h : (v.recipientId recipient).run s = (.ok id, s')) :
    id = v.setting.actor ∨ aimed id := by
  unfold recipientId at h
  split at h
  · cases h
    exact .inl rfl
  · obtain ⟨targets, s₁, htargets, hrun⟩ := of_run_bind h
    split at hrun
    · next t =>
      cases hrun
      exact .inr (aimed_targets hv hs htargets t (List.mem_singleton_self t))
    · cases hrun
    · cases hrun

theorem yields_testOne (specs : TestSpecs) (data : RollData) (target : Snapshot) :
    Yields (fun result => ∀ r ∈ result, r.target = target) (v.testOne specs data target) := by
  unfold testOne
  split
  · exact .bind fun _ => .pure (by simp)
  · refine .bind fun defence => ?_
    extract_lets rest
    have hrest : ∀ total,
        Yields (fun result => ∀ r ∈ result, r.target = target) (rest total) := fun total =>
      .bind fun _ => .pure (by simp)
    split
    · exact .bind fun _ => .bind hrest
    · exact .bind fun _ => .bind hrest

-- A test sends the walk only to those against whom it is made.
theorem of_run_test {specs : TestSpecs} {o : Outcome} (h : (v.test specs).run s = (.ok o, s')) :
    ∃ targets s₁, v.targets.run s = (.ok targets, s₁) ∧
      ∀ branches, o.result = .forked branches → branches ⊆ targets := by
  unfold test at h
  obtain ⟨targets, s₁, htargets, hrun⟩ := of_run_bind h
  refine ⟨targets, s₁, htargets, ?_⟩
  extract_lets rest at hrun
  have hrest : ∀ u,
      Yields (fun o => ∀ branches, o.result = .forked branches → branches ⊆ targets) (rest u) := by
    refine fun u => .bind fun actor => .bind fun stage => .bind_yields
      (.mapM fun target _ => yields_testOne specs _ target) fun results hresults => ?_
    refine .bind fun _ => .pure fun branches hbranches t ht => ?_
    cases hbranches
    obtain ⟨r, hr, rfl⟩ := List.mem_map.1 ht
    obtain ⟨result, hresult, hsome⟩ := List.mem_filterMap.1 (List.mem_filter.1 hr).1
    obtain ⟨target, htarget, hagainst⟩ := exists_of_forall₂ hresults result hresult
    exact hagainst r hsome ▸ htarget
  split at hrun
  · exact Yields.bind hrest s₁ o s' hrun
  · exact hrest () s₁ o s' hrun

theorem of_run_target {appliesTo : AppliesTo} {o : Outcome}
    (h : (v.target appliesTo).run s = (.ok o, s')) :
    ∃ selected s₁, v.selectedTargets.run s = (.ok selected, s₁) ∧
      ∀ branches, o.result = .forked branches → branches ⊆ selected := by
  unfold target at h
  obtain ⟨selected, s₁, hselected, hrun⟩ := of_run_bind h
  refine ⟨selected, s₁, hselected, ?_⟩
  extract_lets forked rest at hrun
  have hforked : ∀ chosen, chosen ⊆ selected →
      Yields (fun o => ∀ branches, o.result = .forked branches → branches ⊆ selected)
        (forked chosen) := by
    refine fun chosen hchosen => .pure fun branches hbranches => ?_
    cases hbranches
    exact hchosen
  have hrest : ∀ u,
      Yields (fun o => ∀ branches, o.result = .forked branches → branches ⊆ selected) (rest u) := by
    intro u
    cases appliesTo with
    | each => exact .bind_yields (Q := (· ⊆ selected)) (.pure (List.Subset.refl _)) hforked
    | random =>
      refine .bind fun e => .bind_yields (Q := (· ⊆ selected)) (.pure fun t ht => ?_) hforked
      exact List.mem_of_getElem? (Option.mem_toList.1 ht)
  split at hrun
  · exact Yields.bind hrest s₁ o s' hrun
  · exact hrest () s₁ o s' hrun

-- The branches into which an operation sends the walk are for those who may be aimed at.
theorem aimed_begin (hv : v.setting.Usual aimed) (hs : s.Orderly v.setting aimed) {o : Outcome}
    {branches : List Snapshot} (h : v.begin.run s = (.ok o, s'))
    (hbranches : o.result = .forked branches) : ∀ t ∈ branches, aimed t.id := by
  have hforks : v.op.kind.Forks := by
    have hmay : v.MayEnd o.result := mayEnd_begin s o s' h
    rwa [hbranches] at hmay
  cases hkind : v.op.kind with
  | test specs =>
    simp only [begin, hkind] at h
    obtain ⟨targets, s₁, htargets, hsubset⟩ := of_run_test h
    exact fun t ht => aimed_targets hv hs htargets t (hsubset branches hbranches ht)
  | target appliesTo =>
    simp only [begin, hkind] at h
    obtain ⟨selected, s₁, hselected, hsubset⟩ := of_run_target h
    exact fun t ht => aimed_selectedTargets hv hs hselected t (hsubset branches hbranches ht)
  | _ => exact (hkind ▸ hforks :).elim

-- Operations that take an answer send it nowhere; all others are carried out.
theorem aimed_accept (hv : v.setting.Usual aimed) (hs : s.Orderly v.setting aimed) {answer : Answer}
    {o : Outcome} {destination : Option String} {branches : List Snapshot}
    (h : (v.accept answer).run s = (.ok (o, destination), s'))
    (hbranches : o.result = .forked branches) : ∀ t ∈ branches, aimed t.id := by
  have hforks : v.op.kind.Forks := by
    have hmay : v.MayEnd o.result := mayEnd_accept answer s _ s' h
    rwa [hbranches] at hmay
  cases hkind : v.op.kind with
  | test | target =>
    simp only [accept, hkind] at h
    obtain ⟨o', s₁, hbegin, hrun⟩ := of_run_bind h
    cases hrun
    exact aimed_begin hv hs hbegin hbranches
  | _ => exact (hkind ▸ hforks :).elim

end Visit

end Tabletop
