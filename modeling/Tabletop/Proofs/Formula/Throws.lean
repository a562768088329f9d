import Mathlib.Algebra.BigOperators.Group.Multiset.Basic
import Mathlib.Algebra.Order.BigOperators.Group.List
import Mathlib.Data.List.Sort
import Tabletop.Formula.Evaluation
import Tabletop.Proofs.Formula.Grammar
import Tabletop.Proofs.Json.Decimals

-- Throws of dice of which the highest or the lowest count. No hand of so many of the faces is worth
-- more than the highest ones, and what the highest ones leave are the lowest ones.
namespace Tabletop

namespace Dice

variable {dice : Dice} {sides : Nat}

-- Whether all faces that are given for dice with so many sides are faces of theirs.
def Fair (dice : Dice) (sides : Nat) : Prop :=
  ∀ i, 1 ≤ dice.face i sides ∧ dice.face i sides ≤ sides

-- The next faces that are given, in the order in which they are asked for.
def upcoming (dice : Dice) (sides n : Nat) : List Nat :=
  (List.range n).map fun i => dice.face (dice.rolled + i) sides

theorem length_upcoming (dice : Dice) (sides n : Nat) : (dice.upcoming sides n).length = n := by
  simp [upcoming]

theorem upcoming_succ (dice : Dice) (sides n : Nat) : dice.upcoming sides (n + 1) =
    dice.face dice.rolled sides :: { dice with rolled := dice.rolled + 1 }.upcoming sides n := by
  simp only [upcoming, List.range_succ_eq_map, List.map_cons, List.map_map, Nat.add_zero]
  congr 2
  funext i
  simp only [Function.comp_apply, Nat.succ_eq_add_one, Nat.add_comm, Nat.add_left_comm]

theorem Fair.mem (hfair : dice.Fair sides) {n f : Nat} (hf : f ∈ dice.upcoming sides n) :
    1 ≤ f ∧ f ≤ sides := by
  obtain ⟨i, -, rfl⟩ := List.mem_map.1 hf
  exact hfair _

theorem Fair.roll (hfair : dice.Fair sides) :
    dice.roll sides = (dice.face dice.rolled sides, { dice with rolled := dice.rolled + 1 }) := by
  obtain ⟨hleast, hmost⟩ := hfair dice.rolled
  have hclamp : clamp sides (dice.face dice.rolled sides) = dice.face dice.rolled sides := by
    rw [clamp]
    omega
  rw [Dice.roll, hclamp]

theorem Fair.rollMany (hfair : dice.Fair sides) (n : Nat) : dice.rollMany sides n =
    (dice.upcoming sides n, { dice with rolled := dice.rolled + n }) := by
  induction n generalizing dice with
  | zero => rfl
  | succ n ih =>
    have hrest : Fair { dice with rolled := dice.rolled + 1 } sides := hfair
    rw [Dice.rollMany, hfair.roll, upcoming_succ]
    dsimp only
    rw [ih hrest, Nat.add_assoc, Nat.add_comm 1]

end Dice

namespace DiceTerm

/-! The highest and the lowest of some faces -/

variable {faces sorted : List Nat} {k : Nat}

-- The sums of so many of these faces.
def handSums (faces : List Nat) (n : Nat) : Set Nat :=
  { total | ∃ hand : Multiset Nat, hand ≤ faces ∧ hand.card = n ∧ hand.sum = total }

-- The faces that count first where the highest are kept.
def descending (faces : List Nat) : List Nat := faces.mergeSort fun a b => b ≤ a

def ascending (faces : List Nat) : List Nat := faces.mergeSort fun a b => a ≤ b

theorem descending_perm (faces : List Nat) : (descending faces).Perm faces :=
  List.mergeSort_perm _ _

theorem pairwise_descending (faces : List Nat) : (descending faces).Pairwise fun a b => b ≤ a :=
  List.pairwise_mergeSort' (· ≥ ·) faces

theorem ascending_eq_reverse (faces : List Nat) : ascending faces = (descending faces).reverse := by
  refine List.Perm.eq_of_pairwise' (r := (· ≤ ·)) (List.pairwise_mergeSort' _ faces)
    (List.pairwise_reverse.2 (pairwise_descending faces)) ?_
  exact (List.mergeSort_perm _ _).trans
    ((descending_perm faces).symm.trans (List.reverse_perm _).symm)

-- A face that goes in front is exchanged for one that is no higher.
theorem sum_take_le_cons {a : Nat} (h : ∀ b ∈ sorted, b ≤ a) (n : Nat) :
    (sorted.take n).sum ≤ ((a :: sorted).take n).sum := by
  cases n with
  | zero => simp
  | succ n =>
    rw [List.take_succ_cons, List.sum_cons, List.take_add_one, List.sum_append]
    have hlast : sorted[n]?.toList.sum ≤ a := by
      cases hn : sorted[n]? with
      | none => simp
      | some b => simpa using h b (List.mem_of_getElem? hn)
    omega

theorem sum_le_sum_take {hand : List Nat} (hsub : hand.Sublist sorted)
    (hsorted : sorted.Pairwise fun a b => b ≤ a) :
    hand.sum ≤ (sorted.take hand.length).sum := by
  induction hsub with
  | slnil => simp
  | cons a _ ih =>
    obtain ⟨hfirst, hrest⟩ := List.pairwise_cons.1 hsorted
    exact (ih hrest).trans (sum_take_le_cons hfirst _)
  | cons_cons a _ ih =>
    have hothers := ih (List.pairwise_cons.1 hsorted).2
    simp only [List.length_cons, List.take_succ_cons, List.sum_cons]
    omega

theorem mem_handSums_of_perm (hperm : sorted.Perm faces) (k : Nat) :
    (sorted.take k).sum ∈ handSums faces (min k faces.length) := by
  refine ⟨sorted.take k, ?_, ?_, Multiset.sum_coe _⟩
  · exact Multiset.coe_le.2 ((List.take_sublist k sorted).subperm.trans hperm.subperm)
  · rw [Multiset.coe_card, List.length_take, hperm.length_eq]

theorem isGreatest_highest (faces : List Nat) (k : Nat) :
    IsGreatest (handSums faces (min k faces.length)) ((descending faces).take k).sum := by
  have hperm := descending_perm faces
  refine ⟨mem_handSums_of_perm hperm k, ?_⟩
  rintro total ⟨hand, hhand, hcard, rfl⟩
  rw [← hand.coe_toList, Multiset.coe_le] at hhand
  obtain ⟨drawn, hdrawn, hsub⟩ := hhand.trans hperm.symm.subperm
  have hlength : drawn.length = min k (descending faces).length := by
    rw [hdrawn.length_eq, Multiset.length_toList, hcard, hperm.length_eq]
  have hsum := sum_le_sum_take hsub (pairwise_descending faces)
  rwa [hlength, ← List.take_eq_take_min, hdrawn.sum_eq, Multiset.sum_toList] at hsum

-- The lowest faces are those that the highest ones leave.
theorem highest_add_lowest (h : k ≤ faces.length) :
    ((descending faces).take k).sum + ((ascending faces).take (faces.length - k)).sum =
      faces.sum := by
  have hlength := (descending_perm faces).length_eq
  have hrest : (ascending faces).take (faces.length - k) = ((descending faces).drop k).reverse := by
    rw [ascending_eq_reverse, List.take_reverse, hlength]
    congr 2
    omega
  rw [hrest, List.sum_reverse, List.sum_take_add_sum_drop, (descending_perm faces).sum_eq]

-- A hand is worth what the rest of the faces leaves, and the rest is worth the highest at most.
theorem isLeast_lowest (faces : List Nat) (k : Nat) :
    IsLeast (handSums faces (min k faces.length)) ((ascending faces).take k).sum := by
  have hperm : (ascending faces).Perm faces := List.mergeSort_perm _ _
  refine ⟨mem_handSums_of_perm hperm k, ?_⟩
  rintro total ⟨hand, hhand, hcard, rfl⟩
  obtain ⟨rest, hrest⟩ := Multiset.le_iff_exists_add.1 hhand
  have hsize := congrArg Multiset.card hrest
  have htotal := congrArg Multiset.sum hrest
  rw [Multiset.coe_card, Multiset.card_add, hcard] at hsize
  rw [Multiset.sum_coe, Multiset.sum_add] at htotal
  have hmost : rest.sum ≤ ((descending faces).take rest.card).sum := by
    refine (isGreatest_highest faces rest.card).2 ⟨rest, ?_, ?_, rfl⟩
    · exact hrest ▸ Multiset.le_add_left _ _
    · omega
  have hleft := highest_add_lowest (show rest.card ≤ faces.length by omega)
  have hmin : faces.length - rest.card = min k (ascending faces).length := by
    rw [hperm.length_eq]
    omega
  rw [hmin, ← List.take_eq_take_min] at hleft
  omega

/-! Terms -/

variable {term : DiceTerm} {dice : Dice}

-- How many faces of a term count.
def size (term : DiceTerm) : Nat :=
  match term.keep with
  | none => term.count
  | some (.highest k) | some (.lowest k) => min k term.count

-- What the faces that count add up to.
def tally (term : DiceTerm) (faces : List Nat) : Nat := (term.kept faces).sum

-- A term as it is written.
def text (term : DiceTerm) : String :=
  toString term.count ++ "d" ++ toString term.faces ++
    match term.keep with
    | none => ""
    | some (.highest k) => "kh" ++ toString k
    | some (.lowest k) => "kl" ++ toString k

theorem kept_subset (term : DiceTerm) (faces : List Nat) : term.kept faces ⊆ faces := by
  unfold kept
  split
  · exact List.Subset.refl _
  all_goals exact fun f hf => List.mem_mergeSort.1 (List.mem_of_mem_take hf)

theorem length_kept (h : faces.length = term.count) : (term.kept faces).length = term.size := by
  unfold kept size
  cases term.keep with
  | none => exact h
  | some keep => cases keep <;> simp [List.length_take, List.length_mergeSort, h]

theorem tally_bounds {sides : Nat} (h : faces.length = term.count)
    (hfaces : ∀ f ∈ faces, 1 ≤ f ∧ f ≤ sides) :
    term.size ≤ term.tally faces ∧ term.tally faces ≤ term.size * sides := by
  have hkept : ∀ f ∈ term.kept faces, 1 ≤ f ∧ f ≤ sides :=
    fun f hf => hfaces f (kept_subset term faces hf)
  have hleast := List.card_nsmul_le_sum (term.kept faces) 1 fun f hf => (hkept f hf).1
  have hmost := List.sum_le_card_nsmul (term.kept faces) sides fun f hf => (hkept f hf).2
  rw [length_kept h, Nat.nsmul_eq_mul] at hleast hmost
  exact ⟨by rwa [Nat.mul_one] at hleast, hmost⟩

theorem roll_of_fair (hfair : dice.Fair term.faces) : term.roll dice =
    (⟨.ofNat (term.tally (dice.upcoming term.faces term.count)),
        term.text ++ "[" ++ Text.commaList ((dice.upcoming term.faces term.count).map toString) ++
          "]"⟩, { dice with rolled := dice.rolled + term.count }) := by
  rw [roll, hfair.rollMany]
  dsimp only
  rw [← List.sum_eq_foldl]
  rfl

end DiceTerm

-- Whole numbers of no more than 53 bits are not rounded.
theorem Binary64.ofNat_exact {n : Nat} (h : n < Units.power 53) :
    (ofNat n).isWhole = true ∧ (ofNat n).toInt = n := by
  have hone : 0 < Units.one := Units.power_pos 1074
  rw [ofNat, ofUnits_of_representable (Units.representable_mul_one h)]
  constructor
  · simp only [isWhole, Nat.mul_mod_left, beq_self_eq_true]
  · simp only [toInt, signed, Nat.mul_div_cancel n hone, Bool.false_eq_true, if_false]

namespace Formula

open DiceTerm

theorem IsThrow.few {w : List Char} {term : DiceTerm} (h : IsThrow w term) :
    term.count ≤ maxDice ∧ term.faces ≤ maxFaces := by
  obtain ⟨counted, -, -, -, few, -⟩ := h
  refine ⟨?_, few⟩
  cases counted with
  | single => exact Nat.le_of_ble_eq_true rfl
  | given _ hcount => exact hcount

theorem run_dice_of_fair {term : DiceTerm} {dice : Dice} (hfair : dice.Fair term.faces)
    (data : RollData) : (eval data (.dice term)).run dice =
      (.ok ⟨.ofNat (term.tally (dice.upcoming term.faces term.count)),
          term.text ++ "[" ++
            Text.commaList ((dice.upcoming term.faces term.count).map toString) ++ "]"⟩,
        { dice with rolled := dice.rolled + term.count }) := by
  have hrun : (eval data (.dice term)).run dice = (.ok (term.roll dice).1, (term.roll dice).2) := by
    rw [eval]
    rfl
  rw [hrun, roll_of_fair hfair]

-- A throw asks for as many faces as it has dice and no more, and shows them in the order in which
-- they came. The highest or the lowest of them are a hand that is worth the most or the least,
-- within what so many dice can show, and both together with what they leave are worth all faces.
-- The total of a throw that can be written is exact.
theorem eval_throw (term : DiceTerm) {dice : Dice} (hfair : dice.Fair term.faces)
    (data : RollData) :
    let faces := dice.upcoming term.faces term.count
    (eval data (.dice term)).run dice =
      (.ok ⟨.ofNat (term.tally faces),
          term.text ++ "[" ++ Text.commaList (faces.map toString) ++ "]"⟩,
        { dice with rolled := dice.rolled + term.count }) ∧
    (term.keep = none → term.tally faces = faces.sum) ∧
    (∀ k, term.keep = some (.highest k) →
      IsGreatest (handSums faces (min k term.count)) (term.tally faces)) ∧
    (∀ k, term.keep = some (.lowest k) →
      IsLeast (handSums faces (min k term.count)) (term.tally faces)) ∧
    (term.size ≤ term.tally faces ∧ term.tally faces ≤ term.size * term.faces) ∧
    (∀ k ≤ term.count, tally { term with keep := some (.highest k) } faces +
      tally { term with keep := some (.lowest (term.count - k)) } faces = faces.sum) ∧
    ((∃ w, IsThrow w term) → (Binary64.ofNat (term.tally faces)).isWhole = true ∧
      (Binary64.ofNat (term.tally faces)).toInt = term.tally faces) := by
  intro faces
  have hlength : faces.length = term.count := dice.length_upcoming term.faces term.count
  have hbounds := tally_bounds hlength fun f hf => hfair.mem hf
  refine ⟨run_dice_of_fair hfair data, fun hkeep => ?_, fun k hkeep => ?_, fun k hkeep => ?_, hbounds,
    fun k hk => ?_, ?_⟩
  · rw [tally, kept, hkeep]
  · rw [tally, kept, hkeep, ← hlength]
    exact isGreatest_highest faces k
  · rw [tally, kept, hkeep, ← hlength]
    exact isLeast_lowest faces k
  · rw [← hlength] at hk ⊢
    exact highest_add_lowest hk
  · rintro ⟨w, hthrow⟩
    obtain ⟨hcount, hfaces⟩ := hthrow.few
    refine Binary64.ofNat_exact (hbounds.2.trans_lt ?_)
    have hsize : term.size ≤ term.count := by
      unfold size
      split <;> omega
    exact (Nat.mul_le_mul (hsize.trans hcount) hfaces).trans_lt (by decide)

-- Four dice of which three count.
theorem eval_throw_four :
    Dice.Fair (.scripted [1, 6, 3, 5] 2) 6 ∧
      ((eval {} (.dice ⟨4, 6, some (.highest 3)⟩)).run (.scripted [1, 6, 3, 5] 2)).1 =
        .ok ⟨14, "4d6kh3[1, 6, 3, 5]"⟩ ∧
      IsGreatest (handSums [1, 6, 3, 5] 3) 14 := by
  have hfair : Dice.Fair (.scripted [1, 6, 3, 5] 2) 6 := by
    intro i
    match i with
    | 0 | 1 | 2 | 3 => decide
    | i + 4 => simp [Dice.scripted]
  obtain ⟨hrun, -, hgreatest, -⟩ := eval_throw ⟨4, 6, some (.highest 3)⟩ hfair {}
  have htally : tally ⟨4, 6, some (.highest 3)⟩ [1, 6, 3, 5] = 14 := by
    simp [tally, kept, List.mergeSort]
  have hfaces : Dice.upcoming (.scripted [1, 6, 3, 5] 2) 6 4 = [1, 6, 3, 5] := by decide
  rw [hfaces, htally] at hrun hgreatest
  have htext : text ⟨4, 6, some (.highest 3)⟩ ++ "[" ++
      Text.commaList ([1, 6, 3, 5].map toString) ++ "]" = "4d6kh3[1, 6, 3, 5]" := by decide +kernel
  rw [htext] at hrun
  exact ⟨hfair, congrArg Prod.fst hrun, hgreatest 3 rfl⟩

end Formula

end Tabletop
