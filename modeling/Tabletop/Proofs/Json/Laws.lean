import Tabletop.Proofs.Json.Write

-- The laws of writing at a dotted path: what is written is found, nothing else changes on paths
-- that are apart, the last value that is written is all that counts, and what is there already can
-- be written again.
namespace Tabletop.Json

variable {root value : Json} {way : List String}

theorem settled_of_find? {key : String} {members : List (String × Json)}
    (h : SettledMembers members) (hfound : Entries.find? key members = some value) :
    value.Settled := by
  induction members with
  | nil => cases hfound
  | cons member members ih =>
    obtain ⟨k, v⟩ := member
    rw [SettledMembers] at h
    rw [Entries.find?] at hfound
    split at hfound
    · exact Option.some.inj hfound ▸ h.1
    · exact ih h.2 hfound

-- The objects that the first value made on the way are there for the second one.
theorem write_write (root value other : Json) (way : List String) :
    (root.write value way).write other way = root.write other way := by
  induction way generalizing root with
  | nil => rfl
  | cons key way ih =>
    simp only [write, membersOrNone, Entries.find?_insert, if_true, Option.getD_some, ih,
      Entries.insert_insert]

-- There are objects all the way to what is found, and each of them has the key that leads on.
theorem write_of_follow? (hsettled : root.Settled) (h : root.follow? way = some value) :
    root.write value way = root := by
  induction way generalizing root with
  | nil => exact (Option.some.inj h).symm
  | cons key way ih =>
    cases root with
    | obj members =>
      rw [follow?_cons, Option.bind_eq_some_iff] at h
      obtain ⟨child, hchild, hvalue⟩ := h
      rw [Settled] at hsettled
      have hsame : child.write value way = child := ih (settled_of_find? hsettled.2 hchild) hvalue
      simp only [membersOrNone] at hchild
      simp only [write, membersOrNone, hchild, Option.getD_some, hsame,
        Entries.insert_of_find? hsettled.1 hchild]
    | _ => cases h

-- Whatever was in the way gives way, and nothing that could be found apart from there is lost with
-- it.
theorem set_laws {p q : String} (hp : p ≠ "") (hq : q ≠ "") (root value other : Json) :
    (root.set p value).get? p = some value ∧
    (Path.Apart (Path.segments p) (Path.segments q) →
      (root.set p value).get? q = root.get? q) ∧
    (root.set p value).set p other = root.set p other ∧
    (root.Settled → root.get? p = some value → root.set p value = root) := by
  simp only [get?_eq_follow?, Path.keys_of_ne hp, Path.keys_of_ne hq, set]
  exact ⟨follow?_write root value _, follow?_write_of_apart, write_write root value other _,
    write_of_follow?⟩

-- An array is in the way to one value, and the other one stands under a key without characters.
def satchel : Json :=
  .obj [("herbs", .arr [.str "sage"]), ("purse", .obj [("", .int 3)])]

theorem set_laws_satchel :
    (satchel.set "herbs..mint" (.int 2)).get? "herbs..mint" = some (.int 2) ∧
      Path.Apart (Path.segments "herbs..mint") (Path.segments "purse.") ∧
      (satchel.set "herbs..mint" (.int 2)).get? "purse." = satchel.get? "purse." ∧
      satchel.Settled ∧ satchel.get? "purse." = some (.int 3) ∧
      satchel.set "purse." (.int 3) = satchel := by
  have hherbs : "herbs..mint" ≠ "" := by decide
  have hpurse : "purse." ≠ "" := by decide
  have hapart : Path.Apart (Path.segments "herbs..mint") (Path.segments "purse.") := by
    simp only [Path.Apart]
    decide
  have hsettled : satchel.Settled := by
    simp only [satchel, Settled, SettledMembers, SettledItems, Entries.Ascending]
    decide
  have hfound : satchel.get? "purse." = some (.int 3) := rfl
  obtain ⟨hwritten, hothers, -, -⟩ := set_laws hherbs hpurse satchel (.int 2) .null
  obtain ⟨-, -, -, hsame⟩ := set_laws hpurse hherbs satchel (.int 3) .null
  exact ⟨hwritten, hapart, hothers hapart, hsettled, hfound, hsame hsettled hfound⟩

end Tabletop.Json
