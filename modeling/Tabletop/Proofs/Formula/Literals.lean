import Tabletop.Proofs.Binary64.Shortest
import Tabletop.Proofs.Formula.Grammar
import Tabletop.Proofs.Text.Digits

-- Numbers as formulas show them: a numeral, behind a minus sign where they are below zero.
namespace Tabletop.Formula

open Tabletop.Text

variable {w : List Char} {u : Nat}

theorem digits_toDigits (n : Nat) : Digits (Nat.toDigits 10 n) :=
  ⟨Nat.toDigits_ne_nil, fun _ hc => Nat.isDigit_of_mem_toDigits (by decide) (by decide) hc⟩

theorem digits_replicate (n : Nat) : ∀ c ∈ List.replicate n '0', isDigit c = true := by
  intro c hc
  rw [List.eq_of_mem_replicate hc]
  decide

theorem Digits.append (h : Digits w) {v : List Char} (hv : ∀ c ∈ v, isDigit c = true) :
    Digits (w ++ v) :=
  ⟨List.append_ne_nil_of_left_ne_nil h.1 v, List.forall_mem_append.2 ⟨h.2, hv⟩⟩

theorem IsNumeral.of_point {f : List Char} {n e : Nat} (hw : Digits w) (hf : Digits f)
    (hvalue : ofDigits (w ++ f) = n) (hlength : f.length = e + 1) :
    IsNumeral (w ++ '.' :: f) (Binary64.ofDecimal false n (.negSucc e)) := by
  have hpoint := IsNumeral.point hw hf
  rwa [hvalue, hlength] at hpoint

-- The point stands between digits, or there is none. Zeros at the ends change nothing.
theorem numeral_positional {d : Shortest.Decimal} (hu : u ≠ 0) (h : Units.Representable u)
    (hreads : Shortest.ReadsAs d.digits d.exponent u) (hlow : -400 < d.exponent)
    (hhigh : d.exponent < 400) : IsNumeral (Binary64.positional d) (.finite false u h) := by
  obtain ⟨n, exponent⟩ := d
  have hdigits := digits_toDigits n
  have hvalue := ofDigits_toDigits n
  dsimp only at hreads hlow hhigh
  unfold Binary64.positional
  dsimp only
  generalize Nat.toDigits 10 n = digits at hdigits hvalue
  cases exponent with
  | ofNat e =>
    have hwhole : ofDigits (digits ++ List.replicate e '0') = n * Nat.pow 10 e := by
      rw [ofDigits_append, ofDigits_replicate, hvalue, List.length_replicate, Nat.mul_comm]
      rfl
    have hreads : Shortest.ReadsAs (n * Nat.pow 10 e) 0 u := hreads.shift
    rw [← Binary64.ofDecimal_of_readsAs hu h hreads (by decide) (by decide) false, ← hwhole]
    exact .whole (hdigits.append (digits_replicate e))
  | negSucc e =>
    rw [← Binary64.ofDecimal_of_readsAs hu h hreads (by omega) (by omega) false]
    dsimp only
    split
    · next hplaces =>
      refine .of_point ⟨List.ne_nil_of_length_pos ?_, fun c hc => hdigits.2 c (List.mem_of_mem_take hc)⟩
        ⟨List.ne_nil_of_length_pos ?_, fun c hc => hdigits.2 c (List.mem_of_mem_drop hc)⟩ ?_ ?_
      · rw [List.length_take]
        omega
      · rw [List.length_drop]
        omega
      · rw [List.take_append_drop, hvalue]
      · rw [List.length_drop]
        omega
    · next hplaces =>
      change IsNumeral (['0'] ++ '.' :: (List.replicate (e + 1 - digits.length) '0' ++ digits)) _
      refine .of_point (by decide) ⟨List.append_ne_nil_of_right_ne_nil _ hdigits.1,
        List.forall_mem_append.2 ⟨digits_replicate _, hdigits.2⟩⟩ ?_ ?_
      · rw [List.singleton_append, ← List.cons_append, ← List.replicate_succ, ofDigits_append,
          ofDigits_replicate, hvalue, Nat.mul_zero, Nat.zero_add]
      · rw [List.length_append, List.length_replicate]
        omega

theorem toString_int (n : Nat) : toString (n : Int) = String.ofList (Nat.toDigits 10 n) := by
  change Int.repr n = _
  rw [Int.repr_eq_if, if_pos (Int.natCast_nonneg n), Int.toNat_natCast,
    Nat.repr_eq_ofList_toDigits]

theorem toString_neg {n : Nat} (hn : 0 < n) : toString (-(n : Int)) = "-" ++ toString (n : Int) := by
  rw [toString_int]
  change Int.repr (-n) = _
  rw [Int.repr_eq_if, if_neg (by omega), Int.neg_neg, Int.toNat_natCast,
    Nat.repr_eq_ofList_toDigits]

-- The form of a number reads back.
theorem numeral_format (h : Units.Representable u) :
    IsNumeral (Binary64.finite false u h).format.toList (.finite false u h) := by
  by_cases hu : u = 0
  · subst hu
    have hzero : Binary64.ofDecimal false (ofDigits ['0']) 0 =
        .finite false 0 Units.representable_zero := by decide +kernel
    rw [Binary64.format_zero, ← hzero]
    exact .whole (by decide)
  unfold Binary64.format
  split
  · next hcond =>
    have hdvd : Units.one ∣ u :=
      Nat.dvd_of_mod_eq_zero (beq_iff_eq.1 (Bool.and_eq_true_iff.1 hcond).1)
    have hreads := Binary64.ofDecimal_of_readsAs hu h (Shortest.readsAs_whole h hdvd) (by decide)
      (by decide) false
    have hwhole : IsNumeral _ _ := .whole (digits_toDigits (u / Units.one))
    rw [Binary64.toInt, Binary64.signed, if_neg (by simp), toString_int, String.toList_ofList,
      ← hreads]
    rwa [ofDigits_toDigits] at hwhole
  · obtain ⟨-, hlow, hhigh⟩ := Shortest.decimal_onGrid? .up hu h
    simp only [Binary64.plainText, Bool.false_eq_true, if_false, String.toList_ofList]
    rw [if_neg hu]
    exact numeral_positional hu h (Shortest.decimal_readsAs .up hu h) hlow hhigh

-- The sign stands in front of what the magnitude shows, as both take the same form.
theorem format_negative (h : Units.Representable u) (hu : u ≠ 0) :
    (Binary64.finite true u h).format = "-" ++ (Binary64.finite false u h).format := by
  have hform (negative : Bool) : (Binary64.finite negative u h).format =
      if (Binary64.finite false u h).isWhole &&
          (Binary64.finite false u h).less (Binary64.ofNat (Nat.pow 10 15)) then
        toString (Binary64.finite negative u h).toInt
      else (Binary64.finite negative u h).plainText := rfl
  rw [hform true, hform false]
  split
  · next hcond =>
    have hdvd : Units.one ∣ u :=
      Nat.dvd_of_mod_eq_zero (beq_iff_eq.1 (Bool.and_eq_true_iff.1 hcond).1)
    have hpos : 0 < u / Units.one :=
      Nat.div_pos (Nat.le_of_dvd (Nat.pos_of_ne_zero hu) hdvd) (Units.power_pos 1074)
    exact toString_neg hpos
  · simp only [Binary64.plainText, hu, if_false, if_true, Bool.false_eq_true]
    exact String.toList_inj.1 (by simp)

end Tabletop.Formula
