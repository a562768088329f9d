import Tabletop.Proofs.Document.Activity
import Tabletop.Proofs.Document.Giving
import Tabletop.Proofs.Records

-- The bound target as it reads back from the records, also where operations write over it.
namespace Tabletop

namespace Entries

variable {α : Type u} {key : String} {value : α} {entries : List (String × α)}

-- What is looked for under other keys is there as before.
theorem filter_insert {p : String × α → Bool} (hp : ∀ v, p (key, v) = false) :
    (insert key value entries).filter p = entries.filter p := by
  induction entries with
  | nil => simp [insert, hp]
  | cons entry rest ih =>
    obtain ⟨k, v⟩ := entry
    simp only [insert]
    split
    · next heq =>
      subst heq
      simp [hp]
    · split
      · simp [hp]
      · simp [List.filter_cons, ih]

end Entries

namespace Document

variable {α β : Type} {members : List (String × Json)} {name : String}

-- The one member with this name.
def single? (name : String) (members : List (String × Json)) : Option Json :=
  match members.filter fun m => [name].contains m.1 with
  | [(_, v)] => some v
  | _ => none

theorem need_bind (reader : Reader α) (f : α × Fields → Option β) :
    (need name reader (.named members)).bind f =
      ((single? name members).bind reader).bind fun a => f (a, .named members) := by
  rcases hfilter : members.filter fun m => [name].contains m.1 with _ | ⟨⟨k, v⟩, _ | ⟨m, rest⟩⟩
  · simp only [need, bind_apply, next?, single?, hfilter]
    rfl
  · simp only [need, bind_apply, next?, single?, hfilter, Option.bind_some]
    cases reader v <;> rfl
  · simp only [need, bind_apply, next?, single?, hfilter]
    rfl

theorem single?_insert {key : String} (hkey : name ≠ key) (value : Json) :
    single? name (Entries.insert key value members) = single? name members := by
  rw [single?, single?, Entries.filter_insert]
  simp [hkey.symm]

theorem read_ofDict (d : Dict Json) :
    dict value (.ofDict d) = some (d.mapValues fun _ j => j.settle) := by
  have hentries : ∀ entries : List (String × Json),
      entries.mapM (fun m => (value m.2).map fun a => (m.1, a)) =
        some (entries.map fun m => (m.1, m.2.settle)) := by
    intro entries
    induction entries with
    | nil => rfl
    | cons entry entries ih =>
      rw [List.mapM_cons, ih]
      rfl
  have hlisted := Dict.ofList_entries (d.mapValues fun _ j => j.settle)
  rw [Json.ofDict, dict, hentries, Option.map_some]
  exact congrArg some hlisted

end Document

namespace Snapshot

open Document

-- The snapshot as it is read back: the values of its roll data list their members in order.
def settled (s : Snapshot) : Snapshot :=
  { s with rollData := s.rollData.mapValues fun _ j => j.settle }

theorem read_toJson (s : Snapshot) : read s.toJson = some s.settled := by
  rw [read, toJson, record_record]
  simp [Entries.last?, text, s.disposition.stored.reads, read_ofDict, settled]

-- What is read is settled already.
theorem gives_read : Gives (fun _ => True) (fun s => s.settled = s) read := by
  have hvalue : Gives (fun _ => True) (fun j : Json => j.settle = j) value := by
    intro j j' _ hread
    cases hread
    exact Json.settle_settle j
  refine gives_record Json.hereditary_true ?_
  refine .bind (.need (gives_true _)) fun id _ => ?_
  refine .bind (.need (gives_true _)) fun name _ => ?_
  refine .bind (.need (gives_true _)) fun disposition _ => ?_
  refine .bind (.need (gives_dict Json.hereditary_true hvalue)) fun rollData hsettled => ?_
  refine .pure (congrArg (Snapshot.mk id name disposition) ?_)
  refine Dict.eq_of_find?_eq fun k => ?_
  rw [Dict.find?_mapValues]
  cases hfound : rollData.find? k with
  | none => rfl
  | some j => exact congrArg some (hsettled k j hfound)

-- The fields that a snapshot is read from.
def fieldNames : List String := ["id", "name", "disposition", "rollData"]

theorem read_obj_insert {members : List (String × Json)} {key : String}
    (hkey : key ∉ fieldNames) (value : Json) :
    read (.obj (Entries.insert key value members)) = read (.obj members) := by
  have hsingle : ∀ name ∈ fieldNames,
      single? name (Entries.insert key value members) = single? name members :=
    fun name hname => single?_insert (fun heq => hkey (by rwa [← heq])) value
  simp only [fieldNames, List.forall_mem_cons] at hsingle
  obtain ⟨hid, hname, hdisposition, hrollData, -⟩ := hsingle
  simp only [read, record, bind_apply, pure_apply, need_bind, hid, hname, hdisposition, hrollData,
    Option.map_bind, Function.comp_def, Option.map_some]

-- Without its fields there is no snapshot.
theorem read_value (value : Json) : read (.obj [("value", value)]) = none := rfl

theorem read_empty : read (.obj []) = none := rfl

end Snapshot

namespace Records

open Snapshot

variable {r : Records} {target : Option Snapshot} {id : String}

theorem Bound.target?_eq (h : r.Bound target) : r.target? = target.map Snapshot.settled := by
  rw [target?, h]
  cases target with
  | none => rfl
  | some t => exact read_toJson t

-- Whether the records show this target to be bound, whatever else was written over it. A target
-- that is shown stands in an object.
structure Shows (target : Option Snapshot) (r : Records) : Prop where
  target?_eq : r.target? = target.map Snapshot.settled
  object : target = none ∨ ∃ members, r.find? targetKey = some (.obj members)

theorem Bound.shows (h : r.Bound target) : r.Shows target where
  target?_eq := h.target?_eq
  object := by
    cases target with
    | none => exact .inl rfl
    | some t => exact .inr ⟨_, h⟩

theorem map_settled_target? (r : Records) : r.target?.map Snapshot.settled = r.target? := by
  rw [target?]
  cases hfound : r.find? targetKey with
  | none => rfl
  | some value =>
    rw [Option.bind_some]
    cases hread : Snapshot.read value with
    | none => rfl
    | some t => exact congrArg some (Snapshot.gives_read value t trivial hread)

-- The target that is shown may be taken for the one that reads back.
theorem Shows.self (h : r.Shows target) : r.Shows r.target? where
  target?_eq := r.map_settled_target?.symm
  object := by
    obtain rfl | hobject := h.object
    · exact .inl h.target?_eq
    · exact .inr hobject

theorem shows_none : r.Shows none ↔ r.target? = none := ⟨fun h => h.target?_eq, fun h => ⟨h, .inl rfl⟩⟩

-- The members over which an operation writes show the same target.
theorem Shows.read_fields (h : r.Shows target) :
    Snapshot.read (.obj (r.fields targetKey)) = target.map Snapshot.settled := by
  have htarget := h.target?_eq
  rw [target?] at htarget
  rw [Records.fields]
  cases hfound : r.find? targetKey with
  | none =>
    rw [hfound] at htarget
    rw [read_empty, ← htarget]
    rfl
  | some value =>
    rw [hfound] at htarget
    obtain rfl | ⟨members, hmembers⟩ := h.object
    · cases value with
      | obj members => exact htarget
      | _ => exact read_value _
    · obtain rfl : value = .obj members := Option.some.inj (hfound.symm.trans hmembers)
      exact htarget

-- Whatever an operation writes over the members of its record, it is none of the fields of a
-- snapshot.
theorem Shows.insert (h : r.Shows target) {members : List (String × Json)}
    (hmembers : Snapshot.read (.obj members) = Snapshot.read (.obj (r.fields id))) :
    Shows target (Dict.insert r id (.obj members)) := by
  by_cases hid : id = targetKey
  · subst hid
    have hfound : Dict.find? (Dict.insert r targetKey (.obj members)) targetKey =
        some (.obj members) := by simp
    refine ⟨?_, .inr ⟨members, hfound⟩⟩
    rw [target?, hfound, ← h.read_fields, ← hmembers]
    rfl
  · have hfound : Dict.find? (Dict.insert r id (.obj members)) targetKey = r.find? targetKey := by
      simp [Ne.symm hid]
    exact ⟨by rw [target?, hfound]; exact h.target?_eq, by rw [hfound]; exact h.object⟩

-- Whether something about the records lasts while operations write over the members of their records
-- what is no field of a snapshot.
def Lasting (Q : Records → Prop) : Prop :=
  ∀ (r : Records) (id : String) (members : List (String × Json)), Q r →
    Snapshot.read (.obj members) = Snapshot.read (.obj (r.fields id)) →
    Q (Dict.insert r id (.obj members))

theorem lasting_shows (target : Option Snapshot) : Lasting (Shows target) :=
  fun _ _ _ h hmembers => h.insert hmembers

-- Whether a target that is bound has one of these ids.
def Aims (aimed : String → Prop) (r : Records) : Prop := ∀ t, r.target? = some t → aimed t.id

theorem Bound.aims {aimed : String → Prop} (h : r.Bound target) (htarget : ∀ t ∈ target, aimed t.id) :
    r.Aims aimed := by
  intro t ht
  rw [h.target?_eq] at ht
  obtain ⟨t', ht', rfl⟩ := Option.map_eq_some_iff.1 ht
  exact htarget t' ht'

-- A record that is no object shows no target, and neither do the members that are written instead.
theorem lasting_aims (aimed : String → Prop) : Lasting (Aims aimed) := by
  intro r id members h hmembers t ht
  by_cases hid : id = targetKey
  · subst hid
    refine h t ?_
    have hread : Snapshot.read (.obj (r.fields targetKey)) = some t := by
      rw [← hmembers, ← ht]
      simp [target?]
    rw [Records.fields] at hread
    rw [target?]
    cases hfound : r.find? targetKey with
    | none =>
      rw [hfound] at hread
      cases hread
    | some value =>
      rw [hfound] at hread
      cases value with
      | obj members => exact hread
      | _ => cases hread
  · refine h t ?_
    rw [← ht, target?, target?]
    simp [Ne.symm hid]

variable {Q : Records → Prop}

theorem Lasting.setValue (hQ : Lasting Q) (h : Q r) (id : String) (value : Json) :
    Q (r.setValue id value) :=
  hQ r id _ h (read_obj_insert (by decide) value)

theorem read_merged {members : List (String × Json)} {fields : List (String × Json)}
    (hfields : ∀ f ∈ fields, f.1 ∉ fieldNames) :
    Snapshot.read (.obj (fields.foldl (fun members (k, v) => Entries.insert k v members) members)) =
      Snapshot.read (.obj members) := by
  induction fields generalizing members with
  | nil => rfl
  | cons field fields ih =>
    rw [List.forall_mem_cons] at hfields
    rw [List.foldl_cons, ih hfields.2, read_obj_insert hfields.1]

theorem Lasting.merge (hQ : Lasting Q) (h : Q r) (id : String) {fields : List (String × Json)}
    (hfields : ∀ f ∈ fields, f.1 ∉ fieldNames) : Q (r.merge id fields) :=
  hQ r id _ h (read_merged hfields)

end Records

end Tabletop
