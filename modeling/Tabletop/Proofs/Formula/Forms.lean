import Tabletop.Proofs.Binary64.Alike
import Tabletop.Proofs.Formula.Literals
import Tabletop.Proofs.Formula.Templates
import Tabletop.Proofs.Json.Decimals
import Tabletop.Proofs.Json.Openings

-- The forms of numbers as texts and in documents. Texts give back every number. Documents round
-- twice, and give back the numbers of few digits.
namespace Tabletop

open Tabletop.Text

-- So few digits that none is lost in a document.
def Text.Short (s : List Char) : Prop :=
  (s.filter isDigit).length ≤ 15 ∨ '.' ∉ s ∧ (s.filter isDigit).length ≤ 19

instance (s : List Char) : Decidable (Short s) := inferInstanceAs (Decidable (_ ∨ _))

namespace Formula

variable {w left : List Char} {x : Binary64} {negative : Bool} {j : Json}

theorem IsNumeral.first_digit (h : IsNumeral w x) : ∃ c t, w = c :: t ∧ isDigit c = true := by
  cases h with
  | whole digits => exact digits.exists_cons
  | point digits =>
    obtain ⟨c, t, rfl, hc⟩ := digits.exists_cons
    exact ⟨c, _, rfl, hc⟩

theorem IsNumeral.isBlank_eq_false (h : IsNumeral w x) : ∀ c ∈ w, isBlank c = false :=
  fun c hc => isBlank_of_isPathChar (h.isPathChar c hc)

theorem IsNumeral.ofUnsignedText? (h : IsNumeral w x) (negative : Bool) :
    Binary64.ofUnsignedText? negative w = some (if negative then x.neg else x) := by
  cases h with
  | whole digits =>
    rw [Binary64.ofUnsignedText?_of_digits (Binary64.digitRun_eq_self digits.2) digits.1 rfl rfl,
      Binary64.ofDecimal_signed negative]
    simp
  | point digits fraction =>
    rw [Binary64.ofUnsignedText?_of_digits (Json.digitRun_point digits.2 _) digits.1
      (Json.fraction?_point fraction.2 fraction.1) rfl, Binary64.ofDecimal_signed negative]
    simp

-- A document may refuse a numeral, for zeros in front, but it does not change a short one.
theorem IsNumeral.toNumber? (h : IsNumeral w x) (short : Short w)
    (hread : Json.unsigned? negative w = some (j, left)) :
    j.toNumber? = some (if negative then x.neg else x) := by
  cases h with
  | whole digits =>
    have hlength : w.length ≤ 19 := by
      rw [Short, List.filter_eq_self.2 digits.2] at short
      omega
    have hlt := ofDigits_lt digits.2
    have hpow : 10 ^ w.length ≤ 10 ^ 19 := Nat.pow_le_pow_right (by decide) hlength
    have hbits : 10 ^ 19 ≤ Bits.greatest 64 := by decide
    rw [Json.toNumber?_of_whole digits.2 (by omega) hread, Binary64.ofDecimal_signed negative]
  | @point d f digits fraction =>
    have hlength : (d ++ f).length ≤ 15 := by
      obtain hfew | ⟨hpoint, -⟩ := short
      · rwa [List.filter_append, List.filter_cons_of_neg (by decide), List.filter_eq_self.2 digits.2,
          List.filter_eq_self.2 fraction.2] at hfew
      · exact absurd (by simp) hpoint
    rw [Json.toNumber?_of_point digits.2 fraction.2 fraction.1 hlength hread,
      Binary64.ofDecimal_signed negative]

end Formula

namespace Binary64

variable {x : Binary64}

-- What the form of a number is made of: a numeral, perhaps behind a minus sign.
theorem format_numeral (hx : x.isFinite = true) : ∃ (negative : Bool) (w : List Char),
    Formula.IsNumeral w x.abs ∧ x.format.toList = (if negative then '-' :: w else w) ∧
      x.same (if negative then x.abs.neg else x.abs) = true := by
  cases x with
  | infinite | nan => cases hx
  | finite s u hu =>
    have hnumeral := Formula.numeral_format hu
    by_cases hzero : u = 0
    · subst hzero
      refine ⟨false, _, hnumeral, ?_, ?_⟩
      · rw [format_zero, format_zero]
        rfl
      · cases s with
        | false => exact same_self hx
        | true => exact (same_iff_rank rfl rfl).2 rfl
    · refine ⟨s, _, hnumeral, ?_, ?_⟩
      · cases s with
        | false => rfl
        | true =>
          rw [Formula.format_negative hu hzero, String.toList_append]
          rfl
      · cases s with
        | false => exact same_self hx
        | true => exact same_self hx

theorem format_head (hx : x.isFinite = true) :
    ∃ c t, x.format.toList = c :: t ∧ (c = '-' ∨ isDigit c = true) := by
  obtain ⟨negative, w, hnumeral, hw, -⟩ := format_numeral hx
  cases negative with
  | false =>
    obtain ⟨c, t, rfl, hc⟩ := hnumeral.first_digit
    exact ⟨c, t, hw, .inr hc⟩
  | true => exact ⟨'-', w, hw, .inl rfl⟩

theorem trimmed_format (hx : x.isFinite = true) : Trimmed x.format.toList := by
  obtain ⟨negative, w, hnumeral, hw, -⟩ := format_numeral hx
  have hall : ∀ c ∈ x.format.toList, isBlank c = false := by
    rw [hw]
    cases negative with
    | false => exact hnumeral.isBlank_eq_false
    | true => exact List.forall_mem_cons.2 ⟨by decide, hnumeral.isBlank_eq_false⟩
  exact ⟨fun c hc => hall c (List.mem_of_mem_head? hc), fun c hc => hall c (List.mem_of_mem_getLast? hc)⟩

theorem ofText?_format (hx : x.isFinite = true) :
    ∃ y, ofText? x.format = some y ∧ x.same y = true := by
  obtain ⟨negative, w, hnumeral, hw, hsame⟩ := format_numeral hx
  have hunsigned := hnumeral.ofUnsignedText? negative
  refine ⟨_, ?_, hsame⟩
  rw [ofText?, hw]
  cases negative with
  | false =>
    obtain ⟨c, t, rfl, hc⟩ := hnumeral.first_digit
    split
    · next heq =>
      cases heq
      exact absurd hc (by decide)
    · next heq =>
      cases heq
      exact absurd hc (by decide)
    · exact hunsigned
  | true => exact hunsigned

end Binary64

namespace Json

-- The number that is read from a form in messages. What is no document is a text.
def reading? (form : String) : Option Binary64 :=
  match read? form with
  | some j => j.toNumber?
  | none => Binary64.ofText? form

-- Whether a number is the one that is read from its form.
def Rereads (x : Binary64) : Prop := ∃ y, reading? x.format = some y ∧ x.same y = true

theorem rereads_of_short {x : Binary64} (hx : x.isFinite = true) (short : Short x.format.toList) :
    Rereads x := by
  unfold Rereads reading?
  cases hread : read? x.format with
  | none => exact Binary64.ofText?_format hx
  | some j =>
    obtain ⟨c, t, hhead, hc⟩ := Binary64.format_head hx
    obtain ⟨negative, w, hnumeral, hw, hsame⟩ := Binary64.format_numeral hx
    have hnumber := number?_of_read? (Binary64.trimmed_format hx) hread (isNumber_read? hhead hc hread)
    rw [hw] at hnumber short
    cases negative with
    | false =>
      obtain ⟨c, t, rfl, hc⟩ := hnumeral.first_digit
      have hunsigned : unsigned? false (c :: t) = some (j, []) := by
        unfold number? at hnumber
        split at hnumber
        · next heq =>
          cases heq
          exact absurd hc (by decide)
        · exact hnumber
      exact ⟨_, hnumeral.toNumber? short hunsigned, hsame⟩
    | true =>
      have hshort : Short w := by
        rw [Short, if_pos rfl, List.filter_cons_of_neg (by decide)] at short
        simpa [Short] using short
      exact ⟨_, hnumeral.toNumber? hshort hnumber, hsame⟩

end Json

end Tabletop
