import Tabletop.Proofs.Json.Finite
import Tabletop.Proofs.Json.Reading
import Tabletop.Proofs.Text.Trimming

-- What is read from a text, by the character that it begins with, and what is left of the text.
namespace Tabletop

open Tabletop.Text

variable {negative : Bool} {s rest left : List Char}

/-! Numbers -/

namespace Binary64

theorem toLower_of_isDigit {c : Char} (h : isDigit c = true) : c.toLower = c := by
  simp only [isDigit, Bool.and_eq_true, decide_eq_true_eq] at h
  have hmost : c.val ≤ 57 := h.2
  have hnot : ¬ 65 ≤ c.val := fun hleast => absurd (UInt32.le_trans hleast hmost) (by decide)
  exact dif_neg fun hupper => hnot hupper.1

-- Digits, and behind them what may follow in a document, make a number in any text.
theorem ofUnsignedText?_of_digits {whole : List Char} {fraction : Option (List Char)} {power : Int}
    (hrun : digitRun s = (whole, rest)) (hwhole : whole ≠ [])
    (hfraction : Json.fraction? rest = some (fraction, left))
    (hexponent : exponentPart? left = some power) :
    ofUnsignedText? negative s = some (ofDecimal negative
      (ofDigits (whole ++ fraction.getD [])) (power - (fraction.getD []).length)) := by
  have hword : ∀ {d : Char} {word : List Char}, isDigit d = false →
      s.map Char.toLower ≠ d :: word := by
    rintro d word hd heq
    obtain ⟨c, t, rfl, hc, -⟩ := List.map_eq_cons_iff.1 heq
    have hdigit : isDigit c = true := by
      by_contra hnot
      rw [digitRun, List.takeWhile_cons_of_neg hnot] at hrun
      exact hwhole (congrArg Prod.fst hrun).symm
    rw [toLower_of_isDigit hdigit] at hc
    rw [← hc, hdigit] at hd
    cases hd
  have hinf : s.map Char.toLower ≠ "inf".toList := hword (by decide)
  have hinfinity : s.map Char.toLower ≠ "infinity".toList := hword (by decide)
  have hnan : s.map Char.toLower ≠ "nan".toList := hword (by decide)
  unfold ofUnsignedText?
  dsimp only
  rw [decide_eq_false hinf, decide_eq_false hinfinity, Bool.or_self, if_neg Bool.false_ne_true,
    if_neg hnan, hrun]
  dsimp only
  by_cases hpoint : rest.head? = some '.'
  · obtain ⟨more, rfl⟩ := List.head?_eq_some_iff.1 hpoint
    simp only [Json.fraction?] at hfraction
    split at hfraction
    · cases hfraction
    · cases hfraction
      simp [hwhole, hexponent]
  · have hnone : ∀ c ∈ rest.head?, c ≠ '.' := fun c hc heq => hpoint (heq ▸ hc)
    rw [Json.fraction?_of_head hnone] at hfraction
    cases hfraction
    split
    · exact absurd rfl hpoint
    · simp [hwhole, hexponent]

theorem exponentPart?_cons {e : Char} (he : (e = 'e' || e = 'E') = true) (more : List Char) :
    exponentPart? (e :: more) =
      let part := Json.exponentSign more
      if part.2.isEmpty || !part.2.all isDigit then none
      else some (if part.1 then -(ofDigits part.2 : Int) else ofDigits part.2) := by
  have hletter : (e != 'e' && e != 'E') = false := by
    obtain rfl | rfl : e = 'e' ∨ e = 'E' := by simpa using he
    · rfl
    · rfl
  unfold exponentPart?
  dsimp only
  rw [if_neg (by simp [hletter])]
  rfl

theorem exponentPart?_of_exponent? {exponent : Option (Bool × Nat)}
    (h : Json.exponent? s = some (exponent, [])) : ∃ power, exponentPart? s = some power := by
  cases s with
  | nil => exact ⟨0, rfl⟩
  | cons e more =>
    simp only [Json.exponent?] at h
    split at h
    · next hletter =>
      split at h
      · cases h
      · next hdigits =>
        simp only [Option.some.injEq, Prod.mk.injEq] at h
        have hall : ∀ c ∈ (Json.exponentSign more).2, isDigit c = true :=
          List.dropWhile_eq_nil_iff.1 h.2
        have hsome : (Json.exponentSign more).2 ≠ [] := by
          intro hnil
          simp [hnil, digitRun] at hdigits
        rw [exponentPart?_cons hletter]
        exact ⟨_, if_neg (by simpa [hsome] using hall)⟩
    · cases h

end Binary64

namespace Json

def IsNumber : Json → Prop
  | .int _ | .float _ => True
  | _ => False

variable {j : Json}

theorem FiniteNumber.isNumber (h : j.FiniteNumber) : j.IsNumber := by
  cases j with
  | int | float => trivial
  | null | bool | str | arr | obj => cases h

theorem digitRun_suffix (s : List Char) : (Binary64.digitRun s).2 <:+ s := List.dropWhile_suffix _

theorem fraction?_suffix {fraction : Option (List Char)} (h : fraction? s = some (fraction, left)) :
    left <:+ s := by
  unfold fraction? at h
  split at h
  · dsimp only at h
    split at h
    · cases h
    · cases h
      exact (digitRun_suffix _).trans (List.suffix_cons _ _)
  · cases h
    exact List.suffix_refl _

theorem exponentSign_suffix (s : List Char) : (exponentSign s).2 <:+ s := by
  unfold exponentSign
  split
  · exact List.suffix_cons _ _
  · exact List.suffix_cons _ _
  · exact List.suffix_refl _

theorem exponent?_suffix {exponent : Option (Bool × Nat)}
    (h : exponent? s = some (exponent, left)) : left <:+ s := by
  cases s with
  | nil =>
    cases h
    exact List.suffix_refl _
  | cons e more =>
    simp only [exponent?] at h
    split at h
    · split at h
      · cases h
      · cases h
        exact ((digitRun_suffix _).trans (exponentSign_suffix _)).trans (List.suffix_cons _ _)
    · cases h
      exact List.suffix_refl _

theorem unsigned?_suffix (h : unsigned? negative s = some (j, left)) : left <:+ s := by
  simp only [unsigned?] at h
  split at h
  · cases h
  · simp only [bind, Option.bind_eq_some_iff, Prod.exists] at h
    obtain ⟨fraction, _, hfraction, exponent, _, hexponent, number, -, hpure⟩ := h
    cases hpure
    exact ((exponent?_suffix hexponent).trans (fraction?_suffix hfraction)).trans (digitRun_suffix s)

theorem number?_suffix (h : number? s = some (j, left)) : left <:+ s := by
  unfold number? at h
  split at h
  · exact (unsigned?_suffix h).trans (List.suffix_cons _ _)
  · exact unsigned?_suffix h

theorem ofUnsignedText?_of_unsigned? (h : unsigned? negative s = some (j, [])) :
    ∃ x, Binary64.ofUnsignedText? negative s = some x := by
  simp only [unsigned?] at h
  split at h
  · cases h
  · next hwhole =>
    simp only [bind, Option.bind_eq_some_iff, Prod.exists] at h
    obtain ⟨fraction, _, hfraction, exponent, _, hexponent, number, -, hpure⟩ := h
    cases hpure
    have hdigits : (Binary64.digitRun s).1 ≠ [] := by
      intro hnil
      simp [hnil] at hwhole
    obtain ⟨power, hpower⟩ := Binary64.exponentPart?_of_exponent? hexponent
    exact ⟨_, Binary64.ofUnsignedText?_of_digits rfl hdigits hfraction hpower⟩

-- What documents take for a number is one in texts as well.
theorem ofText?_of_number? {text : String} (h : number? text.toList = some (j, [])) :
    ∃ x, Binary64.ofText? text = some x := by
  obtain ⟨c, t, ht, hc⟩ := number?_head h
  unfold number? at h
  unfold Binary64.ofText?
  split at h
  · next heq =>
    rw [heq]
    exact ofUnsignedText?_of_unsigned? h
  · next hminus =>
    have hplus : ∀ rest, text.toList ≠ '+' :: rest := by
      rintro rest heq
      rw [ht] at heq
      cases heq
      obtain hc | hc := hc <;> exact absurd hc (by decide)
    split
    · next heq => exact absurd heq (hminus _)
    · next heq => exact absurd heq (hplus _)
    · exact ofUnsignedText?_of_unsigned? h

/-! Strings -/

theorem length_hex4? {n : Nat} (h : hex4? s = some (n, left)) : left.length < s.length := by
  unfold hex4? at h
  split at h
  · simp only [bind, Option.bind_eq_some_iff] at h
    obtain ⟨a, -, b, -, c, -, d, -, hpure⟩ := h
    cases hpure
    simp only [List.length_cons]
    omega
  · cases h

theorem length_escapedUnit? {c : Char} (h : escapedUnit? s = some (c, left)) :
    left.length < s.length := by
  simp only [escapedUnit?, bind, Option.bind_eq_some_iff, Prod.exists] at h
  obtain ⟨high, after, hhigh, h⟩ := h
  have hafter := length_hex4? hhigh
  split at h
  · split at h
    · simp only [Option.bind_eq_some_iff, Prod.exists] at h
      obtain ⟨low, rest, hlow, h⟩ := h
      have hrest := length_hex4? hlow
      split at h
      · obtain ⟨-, rfl⟩ := Prod.mk.inj (Option.some.inj h)
        simp only [List.length_cons] at hafter
        omega
      · cases h
    · cases h
  · split at h
    · cases h
    · obtain ⟨-, rfl⟩ := Prod.mk.inj (Option.some.inj h)
      exact hafter

-- Every character of a string takes one or more of the text, and the closing quote takes another.
theorem length_stringBody? {n : Nat} {read : List Char} {t : String}
    (h : stringBody? n read s = some (t, left)) : t.toList.length < read.length + s.length := by
  induction n generalizing read s with
  | zero => simp [stringBody?] at h
  | succ n ih =>
    cases s with
    | nil => simp [stringBody?] at h
    | cons c rest =>
      have hmore : ∀ {d : Char} {s : List Char}, stringBody? n (d :: read) s = some (t, left) →
          s.length ≤ rest.length → t.toList.length < read.length + (c :: rest).length := by
        intro d s h hlength
        have hread := ih h
        simp only [List.length_cons] at hread ⊢
        omega
      simp only [stringBody?] at h
      split at h
      · cases h
        simp
      split at h
      · split at h
        · split at h
          · next hunit => exact hmore h (by grind [length_escapedUnit? hunit])
          · cases h
        · split at h <;> first | exact hmore h (by simp) | cases h
        · cases h
      split at h
      · cases h
      · exact hmore h (Nat.le_refl _)

/-! Whole texts -/

theorem isBlank_of_isSpace {c : Char} (h : isSpace c = true) : isBlank c = true := by
  simp only [isSpace, Bool.or_eq_true, decide_eq_true_eq] at h
  obtain ((rfl | rfl) | rfl) | rfl := h <;> decide

theorem skipSpace_trimmed (h : Trimmed s) : skipSpace s = s := by
  cases s with
  | nil => rfl
  | cons c s =>
    refine skipSpace_cons ?_ s
    have hblank := h.1 c rfl
    cases hspace : isSpace c with
    | false => rfl
    | true => simp [isBlank_of_isSpace hspace] at hblank

-- There is nothing behind what is read from a trimmed text.
theorem eq_nil_of_skipSpace (h : Trimmed s) (hsuffix : left <:+ s) (hleft : skipSpace left = []) :
    left = [] := by
  obtain rfl | ⟨t, c, rfl⟩ := List.eq_nil_or_concat left
  · rfl
  · have hspace : isSpace c = true := List.dropWhile_eq_nil_iff.1 hleft c (by simp)
    obtain ⟨u, rfl⟩ := hsuffix
    have hblank := h.2 c (by simp)
    simp [isBlank_of_isSpace hspace] at hblank

theorem value?_of_read? {text : String} (h : read? text = some j) : ∃ n left,
    value? (n + 1) depthLimit text.toList = some (j, left) ∧ skipSpace left = [] := by
  simp only [read?, bind, Option.bind_eq_some_iff, Prod.exists] at h
  obtain ⟨value, left, hvalue, hleft⟩ := h
  split at hleft
  · next hempty =>
    cases hleft
    exact ⟨_, left, hvalue, List.isEmpty_iff.1 hempty⟩
  · cases hleft

theorem value?_of_number_head {c : Char} (hc : c = '-' ∨ isDigit c = true) (n d : Nat) :
    value? (n + 1) d (c :: s) = number? (c :: s) := by
  obtain ⟨hspace, -, hnull, htrue, hfalse, hquote, harray, hobject⟩ := not_opening_of_number hc
  simp only [value?, skipSpace_cons hspace]
  split <;> simp_all

theorem isNumber_read? {text : String} {c : Char} (ht : text.toList = c :: s)
    (hc : c = '-' ∨ isDigit c = true) (h : read? text = some j) : j.IsNumber := by
  obtain ⟨n, left, hvalue, -⟩ := value?_of_read? h
  rw [ht, value?_of_number_head hc] at hvalue
  exact (finiteNumber_number? hvalue).isNumber

theorem number?_of_read? {text : String} (trimmed : Trimmed text.toList) (h : read? text = some j)
    (hj : j.IsNumber) : number? text.toList = some (j, []) := by
  obtain ⟨n, left, hvalue, hleft⟩ := value?_of_read? h
  have hnumber : number? (skipSpace text.toList) = some (j, left) := by
    cases j with
    | int | float => exact value?_cases hvalue
    | null | bool | str | arr | obj => cases hj
  rw [skipSpace_trimmed trimmed] at hnumber
  obtain rfl := eq_nil_of_skipSpace trimmed (number?_suffix hnumber) hleft
  exact hnumber

theorem string_of_read? {text t : String} (trimmed : Trimmed text.toList)
    (h : read? text = some (.str t)) :
    ∃ rest, text.toList = '"' :: rest ∧ t.toList.length < rest.length := by
  obtain ⟨n, left, hvalue, -⟩ := value?_of_read? h
  obtain ⟨rest, hs, hbody⟩ := value?_cases hvalue
  rw [skipSpace_trimmed trimmed] at hs
  exact ⟨rest, hs, by simpa using length_stringBody? hbody⟩

end Json

end Tabletop
