import Tabletop.Json.Text
import Tabletop.Proofs.Text.Digits

-- Numbers read back from their texts, whatever follows that is no part of a number.
namespace Tabletop

open Tabletop.Text

-- Whether a number cannot go on with these characters.
def Json.Stops (rest : List Char) : Prop :=
  ∀ c ∈ rest.head?, isDigit c = false ∧ c ≠ '.' ∧ c ≠ 'e' ∧ c ≠ 'E'

variable {s rest left : List Char}

theorem Binary64.digitRun_append (hrest : Json.Stops rest) (s : List Char) :
    digitRun (s ++ rest) = ((digitRun s).1, (digitRun s).2 ++ rest) := by
  induction s with
  | nil =>
    cases rest with
    | nil => rfl
    | cons c rest => simp [digitRun, (hrest c rfl).1]
  | cons c s ih =>
    simp only [digitRun, Prod.mk.injEq] at ih
    by_cases hc : isDigit c
    · simp [digitRun, hc, ih.1, ih.2]
    · simp [digitRun, hc]

theorem Binary64.digitRun_eq_self (h : ∀ c ∈ s, isDigit c = true) : digitRun s = (s, []) := by
  induction s with
  | nil => rfl
  | cons c s ih =>
    simp only [List.forall_mem_cons] at h
    have hrun := ih h.2
    simp only [digitRun, Prod.mk.injEq] at hrun
    simp [digitRun, h.1, hrun.1, hrun.2]

namespace Json

theorem fraction?_of_head (h : ∀ c ∈ s.head?, c ≠ '.') : fraction? s = some (none, s) := by
  unfold fraction?
  split
  · exact absurd rfl (h _ rfl)
  · rfl

theorem fraction?_append (hrest : Stops rest) {fraction : Option (List Char)}
    (h : fraction? s = some (fraction, left)) :
    fraction? (s ++ rest) = some (fraction, left ++ rest) := by
  by_cases hpoint : s.head? = some '.'
  · obtain ⟨more, rfl⟩ := List.head?_eq_some_iff.1 hpoint
    simp only [fraction?, List.cons_append, Binary64.digitRun_append hrest] at h ⊢
    split at h
    · cases h
    · next hdigits =>
      simp only [Option.some.injEq, Prod.mk.injEq] at h
      simp [hdigits, ← h.1, ← h.2]
  · rw [fraction?_of_head fun c hc heq => hpoint (heq ▸ hc)] at h
    obtain ⟨rfl, rfl⟩ : none = fraction ∧ s = left := by simpa using h
    refine fraction?_of_head fun c hc heq => ?_
    rw [List.head?_append] at hc
    cases s with
    | nil => exact (hrest c hc).2.1 heq
    | cons c' s => exact hpoint (heq ▸ hc)

theorem exponentSign_append (hs : s ≠ []) (rest : List Char) :
    exponentSign (s ++ rest) = ((exponentSign s).1, (exponentSign s).2 ++ rest) := by
  cases s with
  | nil => exact absurd rfl hs
  | cons c s =>
    by_cases hminus : c = '-'
    · subst hminus; rfl
    by_cases hplus : c = '+'
    · subst hplus; rfl
    · have hunsigned : ∀ t, exponentSign (c :: t) = (false, c :: t) := by
        intro t
        unfold exponentSign
        split <;> simp_all
      rw [List.cons_append, hunsigned, hunsigned]
      rfl

theorem exponent?_of_head (h : ∀ c ∈ s.head?, c ≠ 'e' ∧ c ≠ 'E') :
    exponent? s = some (none, s) := by
  cases s with
  | nil => rfl
  | cons c s => simp [exponent?, h c rfl]

theorem exponent?_append (hrest : Stops rest) {exponent : Option (Bool × Nat)}
    (h : exponent? s = some (exponent, left)) :
    exponent? (s ++ rest) = some (exponent, left ++ rest) := by
  by_cases hletter : ∀ c ∈ s.head?, c ≠ 'e' ∧ c ≠ 'E'
  · rw [exponent?_of_head hletter] at h
    obtain ⟨rfl, rfl⟩ : none = exponent ∧ s = left := by simpa using h
    refine exponent?_of_head fun c hc => ?_
    rw [List.head?_append] at hc
    cases s with
    | nil => exact (hrest c hc).2.2
    | cons c' s => exact hletter c hc
  · cases s with
    | nil => simp at hletter
    | cons e more =>
      have he : (e = 'e' || e = 'E') = true := by
        simp at hletter
        by_cases he : e = 'e' <;> simp_all
      -- A letter at the end of the text has no digits.
      have hmore : more ≠ [] := by
        rintro rfl
        simp [exponent?, he, exponentSign, Binary64.digitRun] at h
      simp only [exponent?, he, if_true, List.cons_append, exponentSign_append hmore,
        Binary64.digitRun_append hrest] at h ⊢
      split at h
      · cases h
      · next hdigits =>
        simp only [Option.some.injEq, Prod.mk.injEq] at h
        simp [hdigits, ← h.1, ← h.2]

theorem unsigned?_append (hrest : Stops rest) {negative : Bool} {j : Json}
    (h : unsigned? negative s = some (j, left)) :
    unsigned? negative (s ++ rest) = some (j, left ++ rest) := by
  simp only [unsigned?, Binary64.digitRun_append hrest] at h ⊢
  split at h
  · cases h
  · next hwhole =>
    rw [if_neg hwhole]
    simp only [bind, Option.bind_eq_some_iff, Prod.exists] at h ⊢
    obtain ⟨fraction, behind, hfraction, exponent, after, hexponent, number, hnumber, hpure⟩ := h
    refine ⟨fraction, _, fraction?_append hrest hfraction, exponent, _,
      exponent?_append hrest hexponent, number, hnumber, ?_⟩
    simp only [pure, Option.some.injEq, Prod.mk.injEq] at hpure ⊢
    exact ⟨hpure.1, by rw [hpure.2]⟩

theorem number?_of_head {c : Char} (hc : c ≠ '-') (s : List Char) :
    number? (c :: s) = unsigned? false (c :: s) := by
  unfold number?
  split
  · next heq => cases heq; exact absurd rfl hc
  · rfl

-- A number starts with its sign or with a digit.
theorem number?_head {j : Json} (h : number? s = some (j, left)) :
    ∃ c t, s = c :: t ∧ (c = '-' ∨ isDigit c = true) := by
  cases s with
  | nil => simp [number?, unsigned?, Binary64.digitRun] at h
  | cons c s =>
    refine ⟨c, s, rfl, ?_⟩
    by_cases hminus : c = '-'
    · exact .inl hminus
    · refine .inr ?_
      rw [number?_of_head hminus] at h
      by_cases hdigit : isDigit c
      · exact hdigit
      · simp [unsigned?, Binary64.digitRun, hdigit] at h

-- What starts a number starts nothing else.
theorem not_opening_of_number {c : Char} (hc : c = '-' ∨ isDigit c = true) :
    isSpace c = false ∧ c ≠ ']' ∧ c ≠ 'n' ∧ c ≠ 't' ∧ c ≠ 'f' ∧ c ≠ '"' ∧ c ≠ '[' ∧
      c ≠ '\x7b' := by
  obtain rfl | hdigit := hc
  · decide
  · refine ⟨?_, ?_⟩
    · simp only [isSpace, Bool.or_eq_false_iff, decide_eq_false_iff_not]
      refine ⟨⟨⟨?_, ?_⟩, ?_⟩, ?_⟩ <;> (rintro rfl; revert hdigit; decide)
    · refine ⟨?_, ?_, ?_, ?_, ?_, ?_, ?_⟩ <;> (rintro rfl; revert hdigit; decide)

theorem number?_append (hrest : Stops rest) {j : Json} (h : number? s = some (j, left)) :
    number? (s ++ rest) = some (j, left ++ rest) := by
  obtain ⟨c, s, rfl, -⟩ := number?_head h
  by_cases hminus : c = '-'
  · subst hminus
    exact unsigned?_append hrest h
  · rw [List.cons_append, number?_of_head hminus] at *
    exact unsigned?_append hrest h

/-! Whole numbers -/

theorem head?_toDigits_ne_zero {n : Nat} (hn : 0 < n) : (Nat.toDigits 10 n).head? ≠ some '0' := by
  induction n using Nat.strongRecOn with
  | _ n ih =>
    by_cases hlt : n < 10
    · have hall : ∀ d < 10, 0 < d → Nat.digitChar d ≠ '0' := by decide
      simpa [Nat.toDigits_of_lt_base hlt] using hall n hlt hn
    · have hshorter := ih (n / 10) (by omega) (by omega)
      rw [Nat.toDigits_of_base_le (by decide) (by omega), List.head?_append]
      cases hdigits : Nat.toDigits 10 (n / 10) with
      | nil => exact absurd hdigits Nat.toDigits_ne_nil
      | cons c digits => simpa [hdigits] using hshorter

-- The digits of a whole number are all taken.
theorem unsigned?_toDigits (negative : Bool) (n : Nat) :
    unsigned? negative (Nat.toDigits 10 n) =
      (numberOf? negative (Nat.toDigits 10 n) none none).map fun j => (j, []) := by
  have hrun : Binary64.digitRun (Nat.toDigits 10 n) = (Nat.toDigits 10 n, []) :=
    Binary64.digitRun_eq_self fun c hc =>
      Nat.isDigit_of_mem_toDigits (by decide) (by decide) hc
  have hzero : ¬ ((Nat.toDigits 10 n).head? = some '0' ∧ 1 < (Nat.toDigits 10 n).length) := by
    rintro ⟨hhead, hlength⟩
    obtain rfl | hn := Nat.eq_zero_or_pos n
    · simp at hlength
    · exact head?_toDigits_ne_zero hn hhead
  simp only [unsigned?, hrun]
  rw [if_neg (by simp [Nat.toDigits_ne_nil, hzero])]
  simp only [fraction?, exponent?, bind, Option.bind_some]
  cases numberOf? negative (Nat.toDigits 10 n) none none <;> rfl

theorem number?_toDigits (n : Nat) :
    number? (Nat.toDigits 10 n) = unsigned? false (Nat.toDigits 10 n) := by
  cases hdigits : Nat.toDigits 10 n with
  | nil => exact absurd hdigits Nat.toDigits_ne_nil
  | cons c digits =>
    have hdigit : c.isDigit :=
      Nat.isDigit_of_mem_toDigits (by decide) (by decide) (hdigits ▸ List.mem_cons_self)
    refine number?_of_head (fun hc => ?_) digits
    subst hc
    revert hdigit
    decide

-- Whole numbers that fit into 64 bits, with a sign or without.
def Whole64 (n : Int) : Prop := -Nat.pow 2 63 ≤ n ∧ n ≤ Bits.greatest 64

instance (n : Int) : Decidable (Whole64 n) := inferInstanceAs (Decidable (_ ∧ _))

theorem Whole64.natAbs_le {n : Int} (h : Whole64 n) : n.natAbs ≤ Bits.greatest 64 := by
  have hgreatest : Nat.pow 2 63 ≤ Bits.greatest 64 := by decide
  have hleast := h.1
  have hlast := h.2
  omega

theorem number?_int {n : Int} (h : Whole64 n) :
    number? (toString n).toList = some (.int n, []) := by
  rw [Int.toString_eq_repr, Int.repr_eq_if]
  by_cases hn : 0 ≤ n
  · obtain ⟨m, rfl⟩ := Int.eq_ofNat_of_zero_le hn
    have hgreatest : ¬ Bits.greatest 64 < m := by
      have hfits := h.2
      omega
    rw [if_pos hn, Int.toNat_natCast, Nat.toList_repr, number?_toDigits, unsigned?_toDigits]
    simp [numberOf?, ofDigits_toDigits, hgreatest]
  · obtain ⟨m, rfl⟩ : ∃ m : Nat, n = -(m : Int) := ⟨n.natAbs, by omega⟩
    have hleast : ¬ Nat.pow 2 63 < m := by
      have hfits := h.1
      omega
    have hgreatest : ¬ Bits.greatest 64 < m := by
      have hpow : Nat.pow 2 63 ≤ Bits.greatest 64 := by decide
      omega
    have hpos : m ≠ 0 := by omega
    rw [if_neg hn, String.toList_append, Int.neg_neg, Int.toNat_natCast, Nat.toList_repr]
    show unsigned? true (Nat.toDigits 10 m) = _
    rw [unsigned?_toDigits]
    simp [numberOf?, ofDigits_toDigits, hgreatest, hleast, hpos]

end Json

end Tabletop
