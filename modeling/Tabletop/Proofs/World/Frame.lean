import Mathlib.Data.List.Forall2
import Tabletop.Proofs.Entity
import Tabletop.Proofs.World
import Tabletop.Stage

-- What operations may change in the world: who acts may be changed in some ways, others that are
-- aimed at in fewer, and nobody else at all.
namespace Tabletop

namespace Operation

-- The pools of others that an operation writes.
def pools (paths : AttributePaths) (op : Operation) : List String :=
  match op.kind with
  | .attack .. => [paths.hp]
  | .heal _ resource .. => [resource.getD paths.hp]
  | .consumption restores .. => restores.map Restore.resource
  | _ => []

-- The flags of the acting entity that an operation sets.
def flags (op : Operation) : List String :=
  match op.kind with
  | .setFlag key _ => [key]
  | _ => []

theorem of_mem_flags {op : Operation} {key : String} (h : key ∈ op.flags) :
    ∃ value, op.kind = .setFlag key value := by
  unfold flags at h
  split at h
  · next value hkind =>
    obtain rfl := List.mem_singleton.1 h
    exact ⟨value, hkind⟩
  · cases h

theorem flatMap_subset {ops more : List Operation} (h : ops ⊆ more) (f : Operation → List String) :
    ops.flatMap f ⊆ more.flatMap f := by
  intro name hname
  obtain ⟨op, hop, hname⟩ := List.mem_flatMap.1 hname
  exact List.mem_flatMap.2 ⟨op, h hop, hname⟩

end Operation

-- Whether nothing of an item changed but its quantity, which did not rise.
structure Item.Dwindles (i next : Item) : Prop where
  same : next = { i with quantity := next.quantity }
  le : next.quantity ≤ i.quantity

-- Whether an entity may have become this by acting: its flags are the same under all but some keys,
-- and it has the same items, though perhaps fewer of some.
structure Entity.Acts (keys : List String) (e next : Entity) : Prop where
  id : next.id = e.id
  name : next.name = e.name
  disposition : next.disposition = e.disposition
  flags : ∀ key, key ∉ keys → Dict.find? next.flags key = Dict.find? e.flags key
  items : List.Forall₂ Item.Dwindles e.items next.items

-- Whether an entity may have become this by what others did: it is the same but for the values of
-- some pools.
structure Entity.Suffers (pools : List String) (e next : Entity) : Prop where
  same : next = { e with system := next.system }
  system : e.system.SameApart (pools.map fun pool => Path.segments (pool ++ ".value")) next.system

namespace Item.Dwindles

variable {i next last : Item}

theorem refl (i : Item) : i.Dwindles i := ⟨rfl, Nat.le_refl _⟩

theorem trans (h : i.Dwindles next) (h' : next.Dwindles last) : i.Dwindles last where
  same := by
    rw [h'.same, h.same]
  le := Nat.le_trans h'.le h.le

end Item.Dwindles

namespace Entity

variable {e next last : Entity} {keys pools more : List String} {changes : List Change}

namespace Acts

theorem refl (keys : List String) (e : Entity) : e.Acts keys e where
  id := rfl
  name := rfl
  disposition := rfl
  flags _ _ := rfl
  items := List.forall₂_same.2 fun i _ => .refl i

theorem trans (h : e.Acts keys next) (h' : next.Acts keys last) : e.Acts keys last where
  id := h'.id.trans h.id
  name := h'.name.trans h.name
  disposition := h'.disposition.trans h.disposition
  flags key hkey := (h'.flags key hkey).trans (h.flags key hkey)
  items := by
    have hboth : ∀ {xs ys zs : List Item}, List.Forall₂ Item.Dwindles xs ys →
        List.Forall₂ Item.Dwindles ys zs → List.Forall₂ Item.Dwindles xs zs := by
      intro xs ys zs hfirst hsecond
      induction hfirst generalizing zs with
      | nil => exact hsecond
      | cons hx _ ih =>
        cases hsecond with
        | cons hy hrest => exact .cons (hx.trans hy) (ih hrest)
    exact hboth h.items h'.items

theorem mono (h : e.Acts keys next) (hkeys : keys ⊆ more) : e.Acts more next :=
  { h with flags key hkey := h.flags key fun hmem => hkey (hkeys hmem) }

theorem map_id (h : e.Acts keys next) : next.items.map Item.id = e.items.map Item.id := by
  have hitems := h.items
  generalize e.items = items at hitems ⊢
  generalize next.items = nexts at hitems ⊢
  induction hitems with
  | nil => rfl
  | cons hfirst _ ih =>
    rw [List.map_cons, List.map_cons, ih, hfirst.same]

end Acts

namespace Suffers

theorem refl (pools : List String) (e : Entity) : e.Suffers pools e := ⟨rfl, .refl _ _⟩

theorem trans (h : e.Suffers pools next) (h' : next.Suffers pools last) : e.Suffers pools last where
  same := by
    rw [h'.same, h.same]
  system := h.system.trans h'.system

theorem mono (h : e.Suffers pools next) (hpools : pools ⊆ more) : e.Suffers more next :=
  ⟨h.same, h.system.mono (List.map_subset _ hpools)⟩

theorem id (h : e.Suffers pools next) : next.id = e.id := by rw [h.same]

end Suffers

-- What an entity does to itself by changes that set none but these flags, and of no item more than
-- there is.
theorem acts_of_applyAll (hitems : (e.items.map Item.id).Nodup) (h : e.applyAll changes = .ok next)
    (hflags : ∀ w ∈ changes.filterMap Change.flag?, w.1 ∈ keys)
    (hstocks : ∀ w ∈ changes.filterMap Change.stock?, ∀ i ∈ e.items, i.id = w.1 →
      w.2 ≤ i.quantity) : e.Acts keys next := by
  obtain ⟨items, hstocked, rfl⟩ := of_applyAll h
  refine ⟨rfl, rfl, rfl, fun key hkey => ?_, ?_⟩
  · have hnone : Entries.last? key (changes.filterMap Change.flag?) = none :=
      Entries.last?_eq_none fun w hw heq => hkey (heq ▸ hflags w hw)
    exact (Dict.find?_foldl_insert _ e.flags).trans (by rw [hnone, Option.none_or])
  · dsimp only
    rw [stockAll_eq hitems hstocked, List.forall₂_map_right_iff, List.forall₂_same]
    intro i hi
    cases hlast : Entries.last? i.id (changes.filterMap Change.stock?) with
    | none => exact .refl i
    | some quantity =>
      exact ⟨rfl, hstocks (i.id, quantity) (Entries.mem_of_last? hlast) i hi rfl⟩

-- An entity whose system data is written has the same flags and items.
theorem acts_of_writes (writes : List (String × Json)) :
    e.Acts keys { e with system := e.system.setAll writes } :=
  { Acts.refl keys e with items := (Acts.refl keys e).items }

theorem suffers_of_writes {writes : List (String × Json)}
    (hwrites : ∀ w ∈ writes, ∃ pool ∈ pools, w.1 = pool ++ ".value") :
    e.Suffers pools { e with system := e.system.setAll writes } where
  same := rfl
  system := by
    refine (Json.sameApart_setAll e.system writes).mono fun way hway => ?_
    obtain ⟨w, hw, rfl⟩ := List.mem_map.1 hway
    obtain ⟨pool, hpool, hpath⟩ := hwrites w hw
    exact hpath ▸ List.mem_map_of_mem hpool

end Entity

-- Whether these operations account for all that became of the world. Nobody comes or goes. Who acts
-- may have acted, and who is aimed at may have suffered from it.
structure World.Framed (setting : Setting) (aimed : String → Prop) (ops : List Operation)
    (w w' : World) : Prop where
  absent : ∀ id, Dict.find? w id = none → Dict.find? w' id = none
  own : ∀ e, Dict.find? w setting.actor = some e →
    ∃ next, Dict.find? w' setting.actor = some next ∧ e.Acts (ops.flatMap Operation.flags) next
  others : ∀ id e, id ≠ setting.actor → Dict.find? w id = some e →
    ∃ next, Dict.find? w' id = some next ∧
      e.Suffers (ops.flatMap (Operation.pools setting.rules.paths)) next ∧ (next ≠ e → aimed id)

namespace World.Framed

variable {setting : Setting} {aimed : String → Prop} {ops more : List Operation} {w w' w'' : World}
  {id : String} {changes : List Change}

theorem refl (w : World) : w.Framed setting aimed ops w where
  absent _ h := h
  own e h := ⟨e, h, .refl _ e⟩
  others _ e _ h := ⟨e, h, .refl _ e, fun hne => absurd rfl hne⟩

theorem trans (h : w.Framed setting aimed ops w') (h' : w'.Framed setting aimed ops w'') :
    w.Framed setting aimed ops w'' where
  absent id hnone := h'.absent id (h.absent id hnone)
  own e he := by
    obtain ⟨next, hnext, hacts⟩ := h.own e he
    obtain ⟨last, hlast, hacts'⟩ := h'.own next hnext
    exact ⟨last, hlast, hacts.trans hacts'⟩
  others id e hid he := by
    obtain ⟨next, hnext, hsuffers, haimed⟩ := h.others id e hid he
    obtain ⟨last, hlast, hsuffers', haimed'⟩ := h'.others id next hid hnext
    refine ⟨last, hlast, hsuffers.trans hsuffers', fun hne => ?_⟩
    by_cases hfirst : next = e
    · exact haimed' (hfirst ▸ hne)
    · exact haimed hfirst

theorem mono (h : w.Framed setting aimed ops w') (hops : ops ⊆ more) :
    w.Framed setting aimed more w' where
  absent := h.absent
  own e he := by
    obtain ⟨next, hnext, hacts⟩ := h.own e he
    exact ⟨next, hnext, hacts.mono (Operation.flatMap_subset hops _)⟩
  others id e hid he := by
    obtain ⟨next, hnext, hsuffers, haimed⟩ := h.others id e hid he
    exact ⟨next, hnext, hsuffers.mono (Operation.flatMap_subset hops _), haimed⟩

theorem append (h : w.Framed setting aimed ops w') (h' : w'.Framed setting aimed more w'') :
    w.Framed setting aimed (ops ++ more) w'' :=
  (h.mono (List.subset_append_left _ _)).trans (h'.mono (List.subset_append_right _ _))

-- Entities stay where they are kept, and who acts has the items that it had.
theorem keyed (h : w.Framed setting aimed ops w') (hkeyed : w.Keyed) : w'.Keyed := by
  intro id found hfound
  cases he : Dict.find? w id with
  | none =>
    rw [h.absent id he] at hfound
    cases hfound
  | some e =>
    by_cases hid : id = setting.actor
    · subst hid
      obtain ⟨next, hnext, hacts⟩ := h.own e he
      obtain rfl : next = found := Option.some.inj (hnext.symm.trans hfound)
      exact hacts.id.trans (hkeyed _ e he)
    · obtain ⟨next, hnext, hsuffers, -⟩ := h.others id e hid he
      obtain rfl : next = found := Option.some.inj (hnext.symm.trans hfound)
      exact hsuffers.id.trans (hkeyed _ e he)

theorem of_insert_own {e next : Entity} (he : Dict.find? w setting.actor = some e)
    (hacts : e.Acts (ops.flatMap Operation.flags) next) :
    w.Framed setting aimed ops (Dict.insert w setting.actor next) where
  absent id hnone := by
    have hid : id ≠ setting.actor := by
      rintro rfl
      rw [he] at hnone
      cases hnone
    simp [hid, hnone]
  own found hfound := by
    obtain rfl : e = found := Option.some.inj (he.symm.trans hfound)
    exact ⟨next, by simp, hacts⟩
  others id found hid hfound := ⟨found, by simp [hid, hfound], .refl _ _, fun hne => absurd rfl hne⟩

theorem of_insert_other {e next : Entity} (hid : id ≠ setting.actor) (haimed : aimed id)
    (he : Dict.find? w id = some e)
    (hsuffers : e.Suffers (ops.flatMap (Operation.pools setting.rules.paths)) next) :
    w.Framed setting aimed ops (Dict.insert w id next) where
  absent other hnone := by
    have hother : other ≠ id := by
      rintro rfl
      rw [he] at hnone
      cases hnone
    simp [hother, hnone]
  own found hfound := ⟨found, by simp [hid.symm, hfound], .refl _ _⟩
  others other found hother hfound := by
    by_cases hsame : other = id
    · subst hsame
      obtain rfl : e = found := Option.some.inj (he.symm.trans hfound)
      exact ⟨next, by simp, hsuffers, fun _ => haimed⟩
    · exact ⟨found, by simp [hsame, hfound], .refl _ _, fun hne => absurd rfl hne⟩

-- What the acting entity does to itself.
theorem of_own (hderive : ∀ e, setting.keeper.derive e = e)
    (h : w.update setting.keeper setting.actor changes = .ok w')
    (hacts : ∀ e next, Dict.find? w setting.actor = some e → e.applyAll changes = .ok next →
      e.Acts (ops.flatMap Operation.flags) next) : w.Framed setting aimed ops w' := by
  obtain ⟨e, next, he, hnext, rfl⟩ := of_update h
  rw [hderive]
  exact of_insert_own he (hacts e next he hnext)

-- Values of pools are written, be it of somebody who is aimed at or of the acting entity itself.
theorem of_writes (hderive : ∀ e, setting.keeper.derive e = e) (haimed : aimed id)
    {writes : List (String × Json)}
    (hwrites : ∀ w ∈ writes, ∃ pool ∈ ops.flatMap (Operation.pools setting.rules.paths),
      w.1 = pool ++ ".value")
    (h : w.update setting.keeper id (writes.map fun w => .set w.1 w.2) = .ok w') :
    w.Framed setting aimed ops w' := by
  obtain ⟨e, next, he, hnext, rfl⟩ := of_update h
  cases hnext.symm.trans (e.applyAll_sets writes)
  rw [hderive]
  by_cases hid : id = setting.actor
  · subst hid
    exact of_insert_own he (Entity.acts_of_writes writes)
  · exact of_insert_other hid haimed he (Entity.suffers_of_writes hwrites)

end World.Framed

end Tabletop
