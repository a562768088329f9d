import Tabletop.Formula.Placeholder
import Tabletop.Predicate
import Tabletop.Proofs.Formula.Forms

-- A value against the literal that is its own form in formulas.
namespace Tabletop

open Tabletop.Text

/-! Numbers -/

namespace Binary64

variable {x : Binary64}

theorem same_of_not_nan (hx : x.isNaN = false) : x.same x = true := by
  cases x with
  | finite | infinite => exact (same_iff_rank rfl rfl).2 rfl
  | nan => cases hx

theorem isNaN_of_same {y : Binary64} (h : x.same y = true) : x.isNaN = false := by
  cases x with
  | finite | infinite => rfl
  | nan => simp [same, compare?, rank?] at h

theorem isNaN_ofInt (n : Int) : (ofInt n).isNaN = false := by
  unfold ofInt ofUnits
  dsimp only
  split <;> rfl

end Binary64

/-! Literals -/

namespace Json

-- Whether a text equals the literal that is written like it. White space at its ends and quotes
-- are lost, and what reads as a document is one.
def TextRestated (s : String) : Prop :=
  match read? (Text.trim s) with
  | none => unquote (Text.trim s).toList = (Text.trim s).toList ∧
      (Text.trim s = s ∨ ∃ x, Binary64.ofText? (Text.trim s) = some x ∧ x.isNaN = false)
  | some .null | some (.str _) => False
  | some (.int n) => ∃ x, Binary64.ofText? (Text.trim s) = some x ∧ x.same (.ofInt n) = true
  | some (.float y) => ∃ x, Binary64.ofText? (Text.trim s) = some x ∧ x.same y = true
  | some j => s = j.settle.compact

-- Whether a value equals the literal that is its form in formulas. Booleans show as numbers, which
-- they do not equal.
def Restated : Json → Prop
  | .int n => Rereads (.ofInt n)
  | .float x => Rereads x
  | .str s => TextRestated s
  | _ => False

variable {j : Json}

theorem unquote_cases (s : List Char) : unquote s = s ∨
    (unquote s).length < s.length ∧ ∃ q t, s = q :: t ∧ (q = '"' ∨ q = '\'') := by
  have hshorter : ∀ (q : Char) (t : List Char), t.dropLast.length < (q :: t).length := by
    intro q t
    rw [List.length_dropLast, List.length_cons]
    omega
  unfold unquote
  split
  · split
    · exact .inr ⟨hshorter _ _, _, _, rfl, .inl rfl⟩
    · exact .inl rfl
  · split
    · exact .inr ⟨hshorter _ _, _, _, rfl, .inr rfl⟩
    · exact .inl rfl
  · exact .inl rfl

theorem ofText?_quoted {text : String} {q : Char} {t : List Char} (ht : text.toList = q :: t)
    (hq : q = '"' ∨ q = '\'') : Binary64.ofText? text = none := by
  have hnone : Binary64.ofUnsignedText? false (q :: t) = none := by
    have hlower : q.toLower = q := by
      obtain rfl | rfl := hq <;> rfl
    obtain rfl | rfl := hq <;>
      simp [Binary64.ofUnsignedText?, Binary64.digitRun, isDigit, hlower]
  rw [Binary64.ofText?, ht]
  obtain rfl | rfl := hq
  · exact hnone
  · exact hnone

theorem unquote_of_number_head {c : Char} {t : List Char} (hc : c = '-' ∨ isDigit c = true) :
    unquote (c :: t) = c :: t := by
  obtain h | ⟨-, q, t, heq, hq⟩ := unquote_cases (c :: t)
  · exact h
  · cases heq
    obtain ⟨-, -, -, -, -, hquote, -⟩ := not_opening_of_number hc
    obtain rfl | rfl := hq
    · exact absurd rfl hquote
    · exact absurd hc (by decide)

theorem settle_of_isNumber (h : j.IsNumber) : j.settle = j := by
  cases j with
  | int | float => rfl
  | null | bool | str | arr | obj => cases h

theorem exists_toNumber? (h : j.IsNumber) :
    ∃ y, j.toNumber? = some y ∧ j.comparand? = some y := by
  cases j with
  | int | float => exact ⟨_, rfl, rfl⟩
  | null | bool | str | arr | obj => cases h

theorem ofLiteral_of_some {s : String} (h : read? (Text.trim s) = some j) :
    ofLiteral s = j.settle := by
  rw [ofLiteral, h]

theorem ofLiteral_of_none {s : String} (h : read? (Text.trim s) = none) :
    ofLiteral s = .str (String.ofList (unquote (Text.trim s).toList)) := by
  rw [ofLiteral, h]

-- The form of a number is a literal number, whatever becomes of its digits.
theorem comparand?_ofLiteral_format (x : Binary64) :
    ∃ y, (ofLiteral x.format).comparand? = some y ∧ reading? x.format = some y := by
  by_cases hx : x.isFinite = true
  · obtain ⟨c, t, hformat, hc⟩ := Binary64.format_head hx
    have htrim : Text.trim x.format = x.format := trim_eq_self (Binary64.trimmed_format hx)
    rw [reading?]
    cases hread : read? x.format with
    | some j =>
      have hnumber := isNumber_read? hformat hc hread
      obtain ⟨y, hy, hcomparand⟩ := exists_toNumber? hnumber
      rw [ofLiteral_of_some (htrim ▸ hread), settle_of_isNumber hnumber]
      exact ⟨y, hcomparand, hy⟩
    | none =>
      obtain ⟨y, hy, -⟩ := Binary64.ofText?_format hx
      rw [ofLiteral_of_none (htrim.symm ▸ hread), htrim, hformat, unquote_of_number_head hc, ← hformat,
        String.ofList_toList]
      refine ⟨y, ?_, hy⟩
      change Binary64.ofText? (Text.trim x.format) = some y
      rw [htrim, hy]
  · cases x with
    | finite => exact absurd rfl hx
    | nan => exact ⟨.nan, by decide +kernel, by decide +kernel⟩
    | infinite s =>
      refine ⟨.infinite s, ?_, ?_⟩
      · cases s <;> decide +kernel
      · cases s <;> decide +kernel

theorem loosely_of_comparands {x y : Binary64} {k : Json} (hx : j.comparand? = some x)
    (hy : k.comparand? = some y) : j.loosely k = (j.same k || x.same y) := by
  unfold loosely
  rw [hx, hy]

theorem loosely_number {x y : Binary64} {k : Json} (hj : j.IsNumber) (hx : j.comparand? = some x)
    (hy : k.comparand? = some y) : j.loosely k = x.same y := by
  have hsame : j.same k = true → x.same y = true := by
    intro h
    cases j with
    | int m =>
      cases k with
      | int n =>
        obtain rfl : m = n := beq_iff_eq.1 h
        obtain rfl := Option.some.inj hx
        obtain rfl := Option.some.inj hy
        exact Binary64.same_of_not_nan (Binary64.isNaN_ofInt m)
      | null | bool | float | str | arr | obj => cases h
    | float a =>
      cases k with
      | float b =>
        obtain rfl := Option.some.inj hx
        obtain rfl := Option.some.inj hy
        exact h
      | null | bool | int | str | arr | obj => cases h
    | null | bool | str | arr | obj => cases hj
  rw [loosely_of_comparands hx hy]
  cases hjk : j.same k with
  | true => exact (hsame hjk).symm
  | false => rfl

-- Two texts.
theorem loosely_str (s t : String) : (str s).loosely (str t) = true ↔ s = t ∨
    ∃ x y, Binary64.ofText? (Text.trim s) = some x ∧ Binary64.ofText? (Text.trim t) = some y ∧
      x.same y = true := by
  have hs : (str s).comparand? = Binary64.ofText? (Text.trim s) := rfl
  have ht : (str t).comparand? = Binary64.ofText? (Text.trim t) := rfl
  unfold loosely
  rw [hs, ht]
  cases Binary64.ofText? (Text.trim s) <;> cases Binary64.ofText? (Text.trim t) <;> simp [same]

-- A text and a value of another kind that counts as no number.
theorem loosely_other {s : String} {k : Json} (hk : k.comparand? = none) (hkind : ∀ t, k ≠ str t) :
    (str s).loosely k = true ↔ k.isNull = false ∧ s = k.render := by
  unfold loosely
  rw [hk]
  cases k with
  | str t => exact absurd rfl (hkind t)
  | int | float => cases hk
  | null | bool | arr | obj => cases (str s).comparand? <;> simp [same]

-- A text and a number.
theorem loosely_str_number {s : String} {k : Json} {y : Binary64} (hy : k.comparand? = some y)
    (hkind : ∀ t, k ≠ str t) (hs : ∃ x, Binary64.ofText? (Text.trim s) = some x) :
    (str s).loosely k = true ↔
      ∃ x, Binary64.ofText? (Text.trim s) = some x ∧ x.same y = true := by
  obtain ⟨x, hx⟩ := hs
  have hsame : (str s).same k = false := by
    cases k with
    | str t => exact absurd rfl (hkind t)
    | null | bool | int | float | arr | obj => rfl
  have hcomparand : (str s).comparand? = some x := hx
  rw [loosely_of_comparands hcomparand hy, hsame, hx]
  simp

-- Quotes are lost with the literal, as it is shorter than the text.
theorem loosely_unquoted (s : String) :
    (str s).loosely (str (String.ofList (unquote (Text.trim s).toList))) = true ↔
      unquote (Text.trim s).toList = (Text.trim s).toList ∧
        (Text.trim s = s ∨ ∃ x, Binary64.ofText? (Text.trim s) = some x ∧ x.isNaN = false) := by
  rw [loosely_str]
  obtain hkept | ⟨hshorter, q, t, ht, hq⟩ := unquote_cases (Text.trim s).toList
  · rw [hkept, String.ofList_toList, trim_trim, eq_comm]
    simp only [true_and]
    refine or_congr Iff.rfl ⟨?_, ?_⟩
    · rintro ⟨x, y, hx, hy, hsame⟩
      obtain rfl := Option.some.inj (hx.symm.trans hy)
      exact ⟨x, hx, Binary64.isNaN_of_same hsame⟩
    · rintro ⟨x, hx, hnan⟩
      exact ⟨x, x, hx, hx, Binary64.same_of_not_nan hnan⟩
  · have hlength := length_trim_le s
    have hne : s ≠ String.ofList (unquote (Text.trim s).toList) := by
      intro heq
      have hsame := congrArg (List.length ∘ String.toList) heq
      simp only [Function.comp_apply, String.toList_ofList] at hsame
      omega
    have hunquote : unquote (Text.trim s).toList ≠ (Text.trim s).toList := by
      intro heq
      rw [heq] at hshorter
      omega
    simp [hne, hunquote, ofText?_quoted ht hq]

theorem loosely_text (s : String) : (str s).loosely (ofLiteral s) = true ↔ TextRestated s := by
  have htrimmed := trimmed_trim s
  unfold TextRestated
  cases hread : read? (Text.trim s) with
  | none =>
    rw [ofLiteral_of_none hread]
    exact loosely_unquoted s
  | some j =>
    rw [ofLiteral_of_some hread]
    have hnumber : j.IsNumber → ∃ x, Binary64.ofText? (Text.trim s) = some x :=
      fun hj => ofText?_of_number? (number?_of_read? htrimmed hread hj)
    cases j with
    | null =>
      simp only [settle]
      rw [loosely_other rfl (by simp)]
      simp [isNull]
    | bool b =>
      simp only [settle]
      rw [loosely_other rfl (by simp)]
      simp [isNull, render]
    | int n =>
      simp only [settle]
      exact loosely_str_number rfl (by simp) (hnumber trivial)
    | float y =>
      simp only [settle]
      exact loosely_str_number rfl (by simp) (hnumber trivial)
    | str t =>
      obtain ⟨rest, hopening, hshorter⟩ := string_of_read? htrimmed hread
      have hlength := length_trim_le s
      rw [hopening, List.length_cons] at hlength
      simp only [settle]
      rw [loosely_str, ofText?_quoted hopening (.inl rfl)]
      have hne : s ≠ t := by
        rintro rfl
        omega
      simp [hne]
    | arr items =>
      simp only [settle]
      rw [loosely_other rfl (by simp)]
      simp [isNull, render]
    | obj members =>
      simp only [settle]
      rw [loosely_other rfl (by simp)]
      simp [isNull, render]

-- A value in a condition against its own form.
theorem loosely_ofLiteral {form : String} (h : Placeholder.render? j = some form) :
    j.loosely (ofLiteral form) = true ↔ j.Restated := by
  have hnumber : ∀ {x : Binary64}, j.IsNumber → j.comparand? = some x →
      (j.loosely (ofLiteral x.format) = true ↔ Rereads x) := by
    intro x hj hx
    obtain ⟨y, hy, hreading⟩ := comparand?_ofLiteral_format x
    rw [loosely_number hj hx hy, Rereads, hreading]
    simp
  cases j with
  | int n =>
    obtain rfl := Option.some.inj h
    exact hnumber trivial rfl
  | float x =>
    obtain rfl := Option.some.inj h
    exact hnumber trivial rfl
  | bool b =>
    obtain rfl := Option.some.inj h
    have hfails : (bool b).loosely (ofLiteral (if b then "1" else "0")) = false := by
      cases b <;> decide +kernel
    simp [hfails, Restated]
  | str s =>
    obtain rfl := Option.some.inj h
    exact loosely_text s
  | null | arr | obj => cases h

end Json

end Tabletop
