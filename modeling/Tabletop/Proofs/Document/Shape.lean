import Tabletop.Document.Shape
import Tabletop.Proofs.Dict
import Tabletop.Proofs.Json.Reading

-- What the readers of documents make of what is written for them.
namespace Tabletop

namespace Json

variable {j : Json} {items : List Json} {members : List (String × Json)}

@[simp] theorem legible_null : Json.null.Legible := trivial

@[simp] theorem legible_bool (b : Bool) : (Json.bool b).Legible := trivial

@[simp] theorem legible_str (s : String) : (Json.str s).Legible := trivial

theorem legibleItems_iff : LegibleItems items ↔ ∀ item ∈ items, item.Legible := by
  induction items with
  | nil => simp [LegibleItems]
  | cons item items ih => simp [LegibleItems, ih]

theorem legibleMembers_iff : LegibleMembers members ↔ ∀ m ∈ members, m.2.Legible := by
  induction members with
  | nil => simp [LegibleMembers]
  | cons member members ih => simp [LegibleMembers, ih]

theorem legibleMembers_insert {key : String} (hj : j.Legible) (h : LegibleMembers members) :
    LegibleMembers (Entries.insert key j members) :=
  legibleMembers_iff.2 (Entries.forall_mem_insert hj (legibleMembers_iff.1 h))

theorem legible_record (h : ∀ m ∈ members, m.2.Legible) : (record members).Legible := by
  have hfold : ∀ {settled : List (String × Json)}, LegibleMembers settled →
      LegibleMembers (members.foldl (fun ms (k, v) => Entries.insert k v ms) settled) := by
    induction members with
    | nil => exact fun hsettled => hsettled
    | cons member members ih =>
      simp only [List.forall_mem_cons] at h
      exact fun hsettled => ih h.2 (legibleMembers_insert h.1 hsettled)
  exact hfold trivial

mutual

theorem settle_of_settled : ∀ {j : Json}, j.Settled → j.settle = j
  | .null, _ => by simp only [settle]
  | .bool _, _ => by simp only [settle]
  | .int _, _ => by simp only [settle]
  | .float _, _ => by simp only [settle]
  | .str _, _ => by simp only [settle]
  | .arr _, h => by rw [settle, settleItems_of_settled h]
  | .obj members, h => by
    rw [settle, settleMembers_of_settled [] h.2]
    exact congrArg obj (Entries.ofList_of_ascending h.1)

theorem settleItems_of_settled :
    ∀ {items : List Json}, SettledItems items → settleItems items = items
  | [], _ => by simp only [settleItems]
  | _ :: _, h => by rw [settleItems, settle_of_settled h.1, settleItems_of_settled h.2]

theorem settleMembers_of_settled : ∀ {members : List (String × Json)}
    (settled : List (String × Json)), SettledMembers members → settleMembers settled members =
      members.foldl (fun settled (k, v) => Entries.insert k v settled) settled
  | [], _, _ => by simp only [settleMembers, List.foldl_nil]
  | (_, _) :: _, _, h => by
    rw [settleMembers, settle_of_settled h.1, settleMembers_of_settled _ h.2, List.foldl_cons]

end

theorem settledMembers_iff : SettledMembers members ↔ ∀ m ∈ members, m.2.Settled := by
  induction members with
  | nil => simp [SettledMembers]
  | cons member members ih => simp [SettledMembers, ih]

mutual

theorem settled_settle : ∀ j : Json, j.settle.Settled
  | .null => by simp only [settle, Settled]
  | .bool _ => by simp only [settle, Settled]
  | .int _ => by simp only [settle, Settled]
  | .float _ => by simp only [settle, Settled]
  | .str _ => by simp only [settle, Settled]
  | .arr items => by
    rw [settle]
    exact settledItems_settle items
  | .obj members => by
    rw [settle]
    exact settledMembers_settle members List.Pairwise.nil trivial

theorem settledItems_settle : ∀ items : List Json, SettledItems (settleItems items)
  | [] => by simp only [settleItems, SettledItems]
  | item :: items => by
    rw [settleItems]
    exact ⟨settled_settle item, settledItems_settle items⟩

theorem settledMembers_settle : ∀ (members : List (String × Json))
    {settled : List (String × Json)}, Entries.Ascending settled → SettledMembers settled →
      Entries.Ascending (settleMembers settled members) ∧
        SettledMembers (settleMembers settled members)
  | [], _, hascending, hsettled => by
    rw [settleMembers]
    exact ⟨hascending, hsettled⟩
  | (_, value) :: members, _, hascending, hsettled => by
    rw [settleMembers]
    refine settledMembers_settle members (Entries.ascending_insert hascending) ?_
    exact settledMembers_iff.2
      (Entries.forall_mem_insert (settled_settle value) (settledMembers_iff.1 hsettled))

end

theorem settle_settle (j : Json) : j.settle.settle = j.settle :=
  settle_of_settled (settled_settle j)

-- Whether a value within an activity can be kept in a document: it has the form that values have
-- once they were read, and its numbers are legible.
structure Storable (j : Json) : Prop where
  settled : j.Settled
  legible : j.Legible

end Json

namespace Document

open Json

variable {α β : Type} {members : List (String × Json)} {name : String}

-- Whether a document is legible and stands for this value.
structure Stored (reader : Reader α) (j : Json) (a : α) : Prop where
  legible : j.Legible
  reads : reader j = some a

/-! Plain values -/

theorem stored_value {j : Json} (h : j.Storable) : Stored value j j where
  legible := h.legible
  reads := congrArg some (settle_of_settled h.settled)

theorem stored_text (s : String) : Stored text (.str s) s := ⟨trivial, rfl⟩

theorem stored_real {x : Binary64} (h : x.Legible) : Stored real (.ofReal x) x := by
  rw [ofReal, if_pos h.1]
  exact ⟨h, rfl⟩

-- Whole numbers that fit into 32 bits with their sign.
def Whole32 (n : Int) : Prop := -Bits.greatest 31 - 1 ≤ n ∧ n ≤ Bits.greatest 31

instance (n : Int) : Decidable (Whole32 n) := inferInstanceAs (Decidable (_ ∧ _))

theorem stored_int32 {n : Int} (h : Whole32 n) : Stored int32 (.int n) n where
  legible := by
    have hleast : -(Nat.pow 2 63 : Int) ≤ -Bits.greatest 31 - 1 := by decide
    have hgreatest : (Bits.greatest 31 : Int) ≤ Bits.greatest 64 := by decide
    exact ⟨Int.le_trans hleast h.1, Int.le_trans h.2 hgreatest⟩
  reads := if_pos (by simpa [Whole32] using h)

theorem legible_ofNat {n : Nat} (h : n ≤ Bits.greatest 64) : (ofNat n).Legible := by
  have hleast : -(Nat.pow 2 63 : Int) ≤ 0 := by decide
  exact ⟨Int.le_trans hleast (Int.natCast_nonneg n), Int.ofNat_le.2 h⟩

theorem stored_nat32 {n : Nat} (h : n ≤ Bits.greatest 32) : Stored nat32 (.ofNat n) n where
  legible := legible_ofNat (Nat.le_trans h (by decide))
  reads := by simp [nat32, integer, ofNat, Int.ofNat_le.2 h]

theorem stored_nat64 {n : Nat} (h : n ≤ Bits.greatest 64) : Stored nat64 (.ofNat n) n where
  legible := legible_ofNat h
  reads := by simp [nat64, integer, ofNat, Int.ofNat_le.2 h]

/-! Lists, dictionaries and options -/

section

variable {f : α → Option β} {as : List α} {bs : List β}

theorem exists_of_mem_mapM (h : as.mapM f = some bs) {b : β} (hb : b ∈ bs) :
    ∃ a ∈ as, f a = some b := by
  induction as generalizing bs with
  | nil =>
    cases h
    cases hb
  | cons a as ih =>
    rw [List.mapM_cons] at h
    obtain ⟨b', hb', h⟩ := Option.bind_eq_some_iff.1 h
    obtain ⟨others, hothers, h⟩ := Option.bind_eq_some_iff.1 h
    cases h
    obtain rfl | hb := List.mem_cons.1 hb
    · exact ⟨a, List.mem_cons_self, hb'⟩
    · obtain ⟨a', hmem, ha'⟩ := ih hothers hb
      exact ⟨a', List.mem_cons_of_mem a hmem, ha'⟩

theorem mapM_eq_none {a : α} (ha : a ∈ as) (h : f a = none) : as.mapM f = none := by
  induction as with
  | nil => cases ha
  | cons a' as ih =>
    rw [List.mapM_cons]
    obtain rfl | ha := List.mem_cons.1 ha
    · rw [h]
      rfl
    · rw [ih ha]
      cases f a' <;> rfl

end

theorem stored_list {item : Reader α} {encode : α → Json} {as : List α}
    (h : ∀ a ∈ as, Stored item (encode a) a) : Stored (list item) (.arr (as.map encode)) as where
  legible := by
    refine legibleItems_iff.2 fun j hj => ?_
    obtain ⟨a, ha, rfl⟩ := List.mem_map.1 hj
    exact (h a ha).legible
  reads := by
    rw [list]
    induction as with
    | nil => rfl
    | cons a as ih =>
      simp only [List.forall_mem_cons] at h
      simp [h.1.reads, ih h.2]

theorem stored_names (names : List String) : Stored (list text) (.names names) names :=
  stored_list fun s _ => stored_text s

theorem stored_dict {item : Reader α} {encode : α → Json} {d : Dict α}
    (h : ∀ entry ∈ d.entries, Stored item (encode entry.2) entry.2) :
    Stored (dict item) (.ofDict (d.mapValues fun _ => encode)) d where
  legible := by
    refine legibleMembers_iff.2 fun m hm => ?_
    obtain ⟨entry, hentry, rfl⟩ := List.mem_map.1 hm
    exact (h entry hentry).legible
  reads := by
    have hentries : ∀ entries : List (String × α),
        (∀ entry ∈ entries, Stored item (encode entry.2) entry.2) →
        (entries.map fun (k, v) => (k, encode v)).mapM
          (fun m : String × Json => (item m.2).map fun a => (m.1, a)) = some entries := by
      intro entries h
      induction entries with
      | nil => rfl
      | cons entry entries ih =>
        simp only [List.forall_mem_cons] at h
        simp [h.1.reads, ih h.2]
    simp [dict, ofDict, Dict.mapValues, hentries d.entries h, Dict.ofList_entries]

-- Values stand in a document as they are.
theorem stored_values {d : Dict Json} (h : ∀ entry ∈ d.entries, entry.2.Storable) :
    Stored (dict value) (.ofDict d) d := by
  have hmap : d.mapValues (fun _ => id) = d := Dict.ext (List.map_id' _)
  have hstored : Stored (dict value) (.ofDict (d.mapValues fun _ => id)) d :=
    stored_dict fun entry hentry => stored_value (h entry hentry)
  rwa [hmap] at hstored

theorem stored_charged (s : Names) : Stored names (.names s.toList) s where
  legible := (stored_names s.toList).legible
  reads := by
    have hkeys : s.toList.map (fun n => (n, ())) = s.entries := by
      simp [Names.toList, Dict.keys, Function.comp_def]
    simp [names, (stored_names s.toList).reads, Names.ofList, hkeys, Dict.ofList_entries]

theorem stored_nullable {item : Reader α} {encode : α → Json} {o : Option α}
    (h : ∀ a ∈ o, Stored item (encode a) a) (hnull : ∀ a ∈ o, encode a ≠ .null) :
    Stored (nullable item) (.ofOption encode o) o := by
  cases o with
  | none => exact ⟨trivial, rfl⟩
  | some a =>
    refine ⟨(h a rfl).legible, ?_⟩
    rw [nullable]
    · simp [ofOption, (h a rfl).reads]
    · exact hnull a rfl

theorem stored_optionalText (s : Option String) : Stored (nullable text) (.ofOption .str s) s :=
  stored_nullable (fun s _ => stored_text s) (by simp)

theorem stored_optionalReal {x : Option Binary64} (h : ∀ y ∈ x, y.Legible) :
    Stored (nullable real) (.ofOption .ofReal x) x :=
  stored_nullable (fun y hy => stored_real (h y hy)) fun y hy => by simp [ofReal, (h y hy).1]

/-! Records -/

-- A reader of fields that takes what it needs and leaves the fields as they are.
theorem next?_ofList (name : String) (members : List (String × Json)) :
    next? [name] (.named (Entries.ofList members)) =
      some (Entries.last? name members, .named (Entries.ofList members)) := by
  have hfilter : (Entries.ofList members).filter (fun m => [name].contains m.1) =
      (Entries.last? name members).toList.map fun v => (name, v) := by
    rw [← Entries.find?_ofList, ← Entries.filter_key (Entries.ascending_ofList members)]
    refine List.filter_congr fun m _ => ?_
    rw [Bool.eq_iff_iff]
    simp only [List.contains_cons, List.contains_nil, Bool.or_false, beq_iff_eq]
    exact eq_comm
  simp only [next?, hfilter]
  cases Entries.last? name members <;> rfl

@[simp] theorem bind_apply (x : FieldReader α) (f : α → FieldReader β) (fields : Fields) :
    (x >>= f) fields = (x fields).bind fun found => f found.1 found.2 := rfl

@[simp] theorem map_apply (f : α → β) (x : FieldReader α) (fields : Fields) :
    (f <$> x) fields = (x fields).map fun found => (f found.1, found.2) := by
  show (x fields).bind _ = _
  cases x fields <;> rfl

@[simp] theorem pure_apply (a : α) (fields : Fields) :
    (pure a : FieldReader α) fields = some (a, fields) := rfl

@[simp] theorem need_ofList (reader : Reader α) :
    need name reader (.named (Entries.ofList members)) =
      ((Entries.last? name members).bind reader).map
        fun a => (a, .named (Entries.ofList members)) := by
  simp only [need, bind_apply, next?_ofList, Option.bind_some]
  cases Entries.last? name members with
  | none => rfl
  | some j => exact (Option.map_eq_bind).symm

@[simp] theorem orElse_ofList (default : α) (reader : Reader α) :
    orElse [name] default reader (.named (Entries.ofList members)) =
      ((Entries.last? name members).elim (some default) reader).map
        fun a => (a, .named (Entries.ofList members)) := by
  simp only [orElse, bind_apply, next?_ofList, Option.bind_some]
  cases Entries.last? name members with
  | none => rfl
  | some j => exact (Option.map_eq_bind).symm

@[simp] theorem maybe_ofList (reader : Reader α) :
    maybe name reader (.named (Entries.ofList members)) =
      ((Entries.last? name members).elim (some none) (nullable reader)).map
        fun a => (a, .named (Entries.ofList members)) :=
  orElse_ofList none (nullable reader)

@[simp] theorem optional_ofList (reader : Reader α) :
    optional name reader (.named (Entries.ofList members)) =
      ((Entries.last? name members).elim (some none) (nullable reader)).map
        fun a => (a, .named (Entries.ofList members)) := by
  simp only [optional, bind_apply, next?_ofList, Option.bind_some]
  cases Entries.last? name members with
  | none => rfl
  | some j => exact (Option.map_eq_bind).symm

theorem record_record (fields : FieldReader α) (members : List (String × Json)) :
    Document.record fields (.record members) =
      (fields (.named (Entries.ofList members))).map Prod.fst := rfl

theorem sharedRecord_record (fields : FieldReader α) (members : List (String × Json)) :
    sharedRecord fields (.record members) =
      (fields (.named (Entries.ofList members))).map Prod.fst := rfl

-- A field with two names is taken under the first one if there is none with the second.
theorem orElse_alias {other : String} (default : α) (reader : Reader α)
    (hother : Entries.last? other members = none) :
    orElse [name, other] default reader (.named (Entries.ofList members)) =
      orElse [name] default reader (.named (Entries.ofList members)) := by
  have hfilter : (Entries.ofList members).filter (fun m => [name, other].contains m.1) =
      (Entries.ofList members).filter (fun m => [name].contains m.1) := by
    refine List.filter_congr fun m hm => ?_
    have hne : m.1 ≠ other := Entries.ne_of_find?_eq_none (Entries.find?_ofList.trans hother) hm
    simp [hne]
  have hnext : next? [name, other] (.named (Entries.ofList members)) =
      next? [name] (.named (Entries.ofList members)) := by
    simp only [next?, hfilter]
  simp only [orElse, bind_apply, hnext]

end Document

end Tabletop
