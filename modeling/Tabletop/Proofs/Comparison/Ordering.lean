import Tabletop.Proofs.Comparison.Duality
import Tabletop.Proofs.Text.Runs

-- Numbers are in a total order, and so are texts that read as numbers. Other texts are ordered by
-- their characters, also against texts that read as numbers, so that a text can stand between two
-- numbers in the wrong order.
namespace Tabletop

open Tabletop.Text

/-! Characters -/

namespace Text

variable {c : Char} {s t : String}

theorem mem_trim (h : c ∈ s.toList) (hc : isBlank c = false) : c ∈ (trim s).toList := by
  rw [trim, String.toList_ofList, trimRight, List.mem_reverse]
  refine mem_dropWhile ?_ hc
  rw [List.mem_reverse]
  exact mem_dropWhile h hc

-- The next text of all that come behind this one.
def follower (s : String) : String := s ++ "\x00"

theorem toList_follower (s : String) : (follower s).toList = s.toList ++ ['\x00'] := String.toList_append

theorem least_le (c : Char) : c = '\x00' ∨ '\x00' < c := by
  by_cases h : c.val = 0
  · exact .inl (Char.ext h)
  · exact .inr (UInt32.pos_iff_ne_zero.2 h)

theorem lt_follower (s : String) : s < follower s := by
  rw [String.lt_iff, toList_follower]
  induction s.toList with
  | nil => exact List.nil_lt_cons _ _
  | cons c w ih => exact List.cons_lt_cons_iff.2 (.inr ⟨rfl, ih⟩)

theorem append_least_lt {v w : List Char} (h : v < w) (hne : v ++ ['\x00'] ≠ w) :
    v ++ ['\x00'] < w := by
  induction v generalizing w with
  | nil =>
    cases w with
    | nil => exact absurd h (List.lt_irrefl _)
    | cons d w =>
      rw [List.nil_append, List.cons_lt_cons_iff]
      obtain rfl | hlt := least_le d
      · cases w with
        | nil => exact absurd rfl hne
        | cons d w => exact .inr ⟨rfl, List.nil_lt_cons _ _⟩
      · exact .inl hlt
  | cons c v ih =>
    cases w with
    | nil => exact absurd h (by simp)
    | cons d w =>
      rw [List.cons_append, List.cons_lt_cons_iff]
      obtain hlt | ⟨rfl, hlt⟩ := List.cons_lt_cons_iff.1 h
      · exact .inl hlt
      · exact .inr ⟨rfl, ih hlt fun heq => hne (by rw [List.cons_append, heq])⟩

theorem follower_lt (h : s < t) (hne : follower s ≠ t) : follower s < t := by
  rw [String.lt_iff, toList_follower]
  refine append_least_lt (String.lt_iff.1 h) fun heq => hne ?_
  rw [← String.toList_inj, toList_follower, heq]

end Text

namespace Binary64

variable {s : List Char}

theorem exponentPart?_eq_none (h : '\x00' ∈ s) : exponentPart? s = none := by
  cases s with
  | nil => cases h
  | cons e rest =>
    by_cases he : (e = 'e' || e = 'E') = true
    · have hrest : '\x00' ∈ rest := by
        obtain rfl | hrest := List.mem_cons.1 h
        · cases he
        · exact hrest
      have hdigits : '\x00' ∈ (Json.exponentSign rest).2 := by
        unfold Json.exponentSign
        split
        · simpa using hrest
        · simpa using hrest
        · exact hrest
      have hall : (Json.exponentSign rest).2.all isDigit = false :=
        List.all_eq_false.2 ⟨_, hdigits, by decide⟩
      rw [exponentPart?_cons he]
      simp [hall]
    · unfold exponentPart?
      exact if_pos (by simpa using he)

-- The numbers in texts are written with other characters.
theorem ofUnsignedText?_eq_none (negative : Bool) (h : '\x00' ∈ s) :
    ofUnsignedText? negative s = none := by
  have hword : ∀ word : List Char, '\x00' ∉ word → s.map Char.toLower ≠ word := by
    rintro word hword rfl
    exact hword (List.mem_map.2 ⟨_, h, rfl⟩)
  have hrest : '\x00' ∈ (digitRun s).2 := mem_dropWhile h (by decide)
  unfold ofUnsignedText?
  dsimp only
  rw [decide_eq_false (hword _ (by decide)), decide_eq_false (hword _ (by decide)), Bool.or_self,
    if_neg Bool.false_ne_true, if_neg (hword _ (by decide))]
  have hexponent : ∀ left : List Char, '\x00' ∈ left → ∀ b : Bool, ∀ f : Int → Binary64,
      (if b = true then none else (exponentPart? left).map f) = none := by
    intro left hleft b f
    rw [exponentPart?_eq_none hleft]
    exact ite_self none
  split
  · next more heq =>
    have hmore : '\x00' ∈ more := by
      rw [heq] at hrest
      simpa using hrest
    exact hexponent _ (mem_dropWhile hmore (by decide)) _ _
  · exact hexponent _ hrest _ _

theorem ofText?_eq_none {text : String} (h : '\x00' ∈ text.toList) : ofText? text = none := by
  unfold ofText?
  split
  · next rest heq =>
    rw [heq] at h
    exact ofUnsignedText?_eq_none true (by simpa using h)
  · next rest heq =>
    rw [heq] at h
    exact ofUnsignedText?_eq_none false (by simpa using h)
  · exact ofUnsignedText?_eq_none false h

end Binary64

namespace Json

variable {a b c : Json} {x y : Binary64} {o : Ordering} {r s t : String}

/-! Values that read as numbers -/

-- Whether exactly one of the comparisons '<', '==' and '>' holds.
def Decided (a b : Json) : Prop :=
  [Comparison.less, .equal, .greater].countP (a.compareBy · b) = 1

instance (a b : Json) : Decidable (Decided a b) := inferInstanceAs (Decidable (_ = 1))

theorem decided_of_order (h : a.order? b = some o) : Decided a b := by
  have hequal : a.loosely b = decide (o = .eq) := by
    rw [Bool.eq_iff_iff, loosely_iff_of_order h, decide_eq_true_iff]
  unfold Decided
  simp only [List.countP_cons, List.countP_nil, compareBy, h, hequal]
  cases o <;> rfl

theorem order?_of_comparands (hx : a.comparand? = some x) (hy : b.comparand? = some y) :
    a.order? b = x.compare? y := by
  unfold order?
  rw [hx, hy]

theorem decided_of_comparands (hx : a.comparand? = some x) (hy : b.comparand? = some y)
    (hxn : x ≠ .nan) (hyn : y ≠ .nan) : Decided a b := by
  obtain ⟨o, ho⟩ := Binary64.exists_compare? hxn hyn
  exact decided_of_order ((order?_of_comparands hx hy).trans ho)

theorem less_trans_of_comparands (ha : a.comparand?.isSome = true)
    (hb : b.comparand?.isSome = true) (hc : c.comparand?.isSome = true)
    (h : a.compareBy .less b = true) (h' : b.compareBy .less c = true) :
    a.compareBy .less c = true := by
  obtain ⟨x, hx⟩ := Option.isSome_iff_exists.1 ha
  obtain ⟨y, hy⟩ := Option.isSome_iff_exists.1 hb
  obtain ⟨z, hz⟩ := Option.isSome_iff_exists.1 hc
  rw [less_iff, order?_of_comparands hx hy] at h
  rw [less_iff, order?_of_comparands hy hz] at h'
  rw [less_iff, order?_of_comparands hx hz]
  exact Binary64.compare?_trans h h'

theorem FiniteNumber.exists_comparand (h : a.FiniteNumber) :
    ∃ x, a.comparand? = some x ∧ x ≠ .nan := by
  cases a with
  | int n =>
    refine ⟨_, rfl, fun hnan => ?_⟩
    have hnumber := Binary64.isNaN_ofInt n
    rw [hnan] at hnumber
    cases hnumber
  | float x => exact ⟨x, rfl, Binary64.ne_nan_of_isFinite h⟩
  | null | bool | str | arr | obj => cases h

/-! Texts -/

-- Whether two texts, if both read as numbers, are ordered by these as by their characters.
def Concordant (s t : String) : Prop := ∀ x y, (str s).comparand? = some x →
  (str t).comparand? = some y → x.compare? y = some (compare s t)

theorem order?_of_concordant (h : Concordant s t) :
    (str s).order? (str t) = some (compare s t) := by
  unfold order?
  cases hs : (str s).comparand? with
  | none => rfl
  | some x =>
    cases ht : (str t).comparand? with
    | none => rfl
    | some y => exact h x y hs ht

theorem less_trans_of_concordant (hrs : Concordant r s) (hst : Concordant s t)
    (hrt : Concordant r t) (h : (str r).compareBy .less (str s) = true)
    (h' : (str s).compareBy .less (str t) = true) : (str r).compareBy .less (str t) = true := by
  rw [less_iff, order?_of_concordant hrs] at h
  rw [less_iff, order?_of_concordant hst] at h'
  rw [less_iff, order?_of_concordant hrt]
  exact congrArg some (Std.TransCmp.lt_trans (Option.some.inj h) (Option.some.inj h'))

theorem decided_self (s : String) : Decided (str s) (str s) := by
  cases h : (str s).order? (str s) with
  | some o => exact decided_of_order h
  | none =>
    have hequal : (str s).loosely (str s) = true := (loosely_str s s).2 (.inl rfl)
    unfold Decided
    simp only [List.countP_cons, List.countP_nil, compareBy, h, hequal]
    rfl

theorem decided_str (h : ∀ x y, (str s).comparand? = some x → (str t).comparand? = some y →
    s = t ∨ x ≠ .nan ∧ y ≠ .nan) : Decided (str s) (str t) := by
  cases hs : (str s).comparand? with
  | none =>
    have hconcordant : Concordant s t := fun x y hx => absurd (hs.symm.trans hx) (by simp)
    exact decided_of_order (order?_of_concordant hconcordant)
  | some x =>
    cases ht : (str t).comparand? with
    | none =>
      have hconcordant : Concordant s t := fun x y _ hy => absurd (ht.symm.trans hy) (by simp)
      exact decided_of_order (order?_of_concordant hconcordant)
    | some y =>
      obtain rfl | ⟨hx, hy⟩ := h x y hs ht
      · exact decided_self s
      · exact decided_of_comparands hs ht hx hy

theorem comparand?_eq_none (h : '\x00' ∈ s.toList) : (str s).comparand? = none :=
  Binary64.ofText?_eq_none (mem_trim h (by decide))

-- Texts that come in another order than their numbers have a text between them.
theorem exists_between (hs : (str s).comparand? = some x) (ht : (str t).comparand? = some y)
    (hchars : s < t) (hvalues : y ≤ x) : ∃ r, (str s).compareBy .less (str r) = true ∧
      (str r).compareBy .less (str t) = true ∧ ¬ (str s).compareBy .less (str t) = true := by
  have hword : (str (follower s)).comparand? = none :=
    comparand?_eq_none (by simp [toList_follower])
  have hne : follower s ≠ t := by
    rintro rfl
    cases hword.symm.trans ht
  have hbelow : Concordant s (follower s) := fun _ _ _ hz => absurd (hword.symm.trans hz) (by simp)
  have habove : Concordant (follower s) t := fun _ _ hz => absurd (hword.symm.trans hz) (by simp)
  refine ⟨follower s, ?_, ?_, ?_⟩
  · rw [less_iff, order?_of_concordant hbelow]
    exact congrArg some (compareOfLessAndEq_eq_lt.2 (lt_follower s))
  · rw [less_iff, order?_of_concordant habove]
    exact congrArg some (compareOfLessAndEq_eq_lt.2 (follower_lt hchars hne))
  · rw [less_iff, order?_of_comparands hs ht, ← Binary64.lt_iff_compare?]
    intro hlt
    exact Binary64.not_lt_self y (Binary64.lt_of_le_of_lt hvalues hlt)

-- Numbers are in a total order. Texts are so as far as they are ordered by numbers only or by their
-- characters only, and not beyond.
theorem comparisons_ordered :
    (∀ a b : Json, a.FiniteNumber → b.FiniteNumber → Decided a b) ∧
    (∀ a b c : Json, a.FiniteNumber → b.FiniteNumber → c.FiniteNumber →
      a.compareBy .less b = true → b.compareBy .less c = true → a.compareBy .less c = true) ∧
    (∀ s t : String, (∀ x y, (str s).comparand? = some x → (str t).comparand? = some y →
      s = t ∨ x ≠ .nan ∧ y ≠ .nan) → Decided (str s) (str t)) ∧
    (∀ r s t : String,
      ((str r).comparand?.isSome = true ∧ (str s).comparand?.isSome = true ∧
          (str t).comparand?.isSome = true ∨
        Concordant r s ∧ Concordant s t ∧ Concordant r t) →
      (str r).compareBy .less (str s) = true → (str s).compareBy .less (str t) = true →
        (str r).compareBy .less (str t) = true) ∧
    (∀ (s t : String) (x y : Binary64), (str s).comparand? = some x →
      (str t).comparand? = some y → s < t → y ≤ x →
        ∃ r, (str s).compareBy .less (str r) = true ∧ (str r).compareBy .less (str t) = true ∧
          ¬ (str s).compareBy .less (str t) = true) := by
  refine ⟨fun a b ha hb => ?_, fun a b c ha hb hc => ?_, fun s t => decided_str,
    fun r s t hkind => ?_, fun s t x y => exists_between⟩
  · obtain ⟨x, hx, hxn⟩ := ha.exists_comparand
    obtain ⟨y, hy, hyn⟩ := hb.exists_comparand
    exact decided_of_comparands hx hy hxn hyn
  · have hsome : ∀ {j : Json}, j.FiniteNumber → j.comparand?.isSome = true := by
      intro j hj
      obtain ⟨x, hx, -⟩ := hj.exists_comparand
      exact Option.isSome_iff_exists.2 ⟨x, hx⟩
    exact less_trans_of_comparands (hsome ha) (hsome hb) (hsome hc)
  · obtain ⟨hr, hs, ht⟩ | ⟨hrs, hst, hrt⟩ := hkind
    · exact less_trans_of_comparands hr hs ht
    · exact less_trans_of_concordant hrs hst hrt

-- By their characters "10" comes before "9".
theorem comparisons_ordered_ranks :
    ((Json.int 2).FiniteNumber ∧ (Json.float 13).FiniteNumber ∧ Decided (.int 2) (.float 13)) ∧
    ((Json.int 20).FiniteNumber ∧ (Json.int 2).compareBy .less (.int 20) = true) ∧
    ((str "elf").comparand? = none ∧ Decided (str "elf") (str "7")) ∧
    ((str "9").compareBy .less (str "10") = true ∧ (str "10").compareBy .less (str "1e2") = true ∧
      (str "9").compareBy .less (str "1e2") = true) ∧
    ((str "10").comparand? = some 10 ∧ (str "9").comparand? = some 9 ∧
      ∃ r, (str "10").compareBy .less (str r) = true ∧ (str r).compareBy .less (str "9") = true ∧
        ¬ (str "10").compareBy .less (str "9") = true) := by
  obtain ⟨hdecided, hordered, htexts, htrans, hbetween⟩ := comparisons_ordered
  have htwo : (Json.int 2).FiniteNumber := ⟨by decide, by decide⟩
  have htwenty : (Json.int 20).FiniteNumber := ⟨by decide, by decide⟩
  have hthirteen : (Json.float 13).FiniteNumber := Binary64.isFinite_ofNat (by decide)
  have helf : (str "elf").comparand? = none := by decide +kernel
  have hten : (str "10").comparand? = some 10 := by decide +kernel
  have hnine : (str "9").comparand? = some 9 := by decide +kernel
  have hhundred : (str "1e2").comparand?.isSome = true := by decide +kernel
  have hbelow : (str "9").compareBy .less (str "10") = true := by decide +kernel
  have habove : (str "10").compareBy .less (str "1e2") = true := by decide +kernel
  have hnumbers : (str "9").comparand?.isSome = true ∧ (str "10").comparand?.isSome = true ∧
      (str "1e2").comparand?.isSome = true :=
    ⟨Option.isSome_of_eq_some hnine, Option.isSome_of_eq_some hten, hhundred⟩
  refine ⟨⟨htwo, hthirteen, hdecided _ _ htwo hthirteen⟩, ⟨htwenty, ?_⟩, ⟨helf, ?_⟩,
    ⟨hbelow, habove, htrans _ _ _ (.inl hnumbers) hbelow habove⟩, hten, hnine, ?_⟩
  · exact hordered _ (.float 13) _ htwo hthirteen htwenty (by decide +kernel) (by decide +kernel)
  · exact htexts _ _ fun x y hx => absurd (helf.symm.trans hx) (by simp)
  · exact hbetween _ _ _ _ hten hnine (by decide +kernel) (by decide +kernel)

-- A text stands between two numbers in the wrong order, and what is no number is in no order at all
-- with what else reads as one.
theorem not_comparisons_ordered :
    (¬ ∀ a b c : Json, (a.FiniteNumber ∧ b.FiniteNumber ∧ c.FiniteNumber ∨
          ∃ r s t, a = str r ∧ b = str s ∧ c = str t) →
        a.compareBy .less b = true → b.compareBy .less c = true →
          a.compareBy .less c = true) ∧
    ¬ ∀ a b : Json, (a.FiniteNumber ∧ b.FiniteNumber ∨ ∃ s t, a = str s ∧ b = str t) →
        Decided a b := by
  constructor
  · intro htrans
    have hless := htrans (str "10") (str "1a") (str "9") (.inr ⟨_, _, _, rfl, rfl, rfl⟩)
      (by decide +kernel) (by decide +kernel)
    revert hless
    decide +kernel
  · intro hdecided
    have hnan := hdecided (str "NaN") (str "nan") (.inr ⟨_, _, rfl, rfl⟩)
    revert hnan
    decide +kernel

end Json

end Tabletop
