import Tabletop.Proofs.Formula.Grammar

-- What the reader accepts is derived by the grammar: each rule takes a derived text off the front
-- of what it is given. Sums and terms also take the blanks behind them.
namespace Tabletop.Formula

open Tabletop.Text

/-! Replies -/

namespace Reply

variable {α β : Type} {r : Reply α} {f : α → List Char → Reply β} {a : α} {b : β}
  {rest : List Char}

theorem andThen_eq_done (h : r.andThen f = .done b rest) :
    ∃ a mid, r = .done a mid ∧ f a mid = .done b rest := by
  cases r with
  | done a mid => exact ⟨a, mid, rfl, h⟩
  | missed | stuck => cases h

theorem map_eq_done {g : α → β} (h : r.map g = .done b rest) :
    ∃ a, r = .done a rest ∧ g a = b := by
  obtain ⟨a, mid, hr, hdone⟩ := andThen_eq_done h
  cases hdone
  exact ⟨a, hr, rfl⟩

theorem commit_eq_done (h : r.commit = .done a rest) : r = .done a rest := by
  cases r with
  | done => exact h
  | missed | stuck => cases h

theorem within_eq_done {e : Expected} (h : r.within e = .done a rest) : r = .done a rest := by
  cases r with
  | done => exact h
  | missed | stuck => cases h

theorem orElse_eq_done {other : Unit → Reply α} (h : r.orElse other = .done a rest) :
    r = .done a rest ∨ other () = .done a rest := by
  cases r with
  | done => exact .inl h
  | missed => exact .inr h
  | stuck => cases h

end Reply

/-! Numbers, throws and paths -/

variable {s rest : List Char} {e : Formula} {n : Nat}

theorem digits_takeWhile (h : s.takeWhile isDigit ≠ []) : Digits (s.takeWhile isDigit) :=
  ⟨h, fun _ hc => List.mem_takeWhile_imp hc⟩

theorem of_natural?_eq_some (h : natural? s = some (n, rest)) :
    ∃ w, s = w ++ rest ∧ Digits w ∧ ofDigits w = n ∧ n ≤ maxNatural := by
  simp only [natural?, Binary64.digitRun, Option.ite_none_left_eq_some, Bool.or_eq_true,
    List.isEmpty_iff, not_or, Option.some.injEq, Prod.mk.injEq] at h
  obtain ⟨⟨hsome, hfits⟩, rfl, rfl⟩ := h
  exact ⟨_, List.takeWhile_append_dropWhile.symm, digits_takeWhile hsome, rfl,
    Nat.le_of_not_lt fun hlt => hfits (decide_eq_true hlt)⟩

theorem keep_sound {k : Option Keep} (h : keep s = .done k rest) :
    ∃ w, s = w ++ rest ∧ IsKeep w k := by
  simp only [keep] at h
  split at h
  · split at h
    · next n left hn =>
      obtain ⟨w, rfl, hdigits, rfl, hfits⟩ := of_natural?_eq_some hn
      cases h
      exact ⟨_, rfl, .highest hdigits hfits⟩
    · cases h
  · split at h
    · next n left hn =>
      obtain ⟨w, rfl, hdigits, rfl, hfits⟩ := of_natural?_eq_some hn
      cases h
      exact ⟨_, rfl, .lowest hdigits hfits⟩
    · cases h
  · cases h
    exact ⟨[], rfl, .all⟩

-- The count that is written, or one.
theorem count_sound (s : List Char) : ∃ w, s = w ++ ((natural? s).getD (1, s)).2 ∧
    (((natural? s).getD (1, s)).1 ≤ maxDice → IsCount w ((natural? s).getD (1, s)).1) := by
  cases hn : natural? s with
  | none => exact ⟨[], rfl, fun _ => .single⟩
  | some found =>
    obtain ⟨n, left⟩ := found
    obtain ⟨w, rfl, hdigits, rfl, -⟩ := of_natural?_eq_some hn
    exact ⟨w, rfl, fun hfew => .given hdigits hfew⟩

theorem diceForm_sound (h : diceForm s = .done e rest) :
    ∃ w term, s = w ++ rest ∧ IsThrow w term ∧ e = .dice term := by
  obtain ⟨a, hs, hcount⟩ := count_sound s
  simp only [diceForm] at h
  generalize (natural? s).getD (1, s) = counted at h hs hcount
  obtain ⟨count, left⟩ := counted
  cases left with
  | nil => cases h
  | cons c more =>
    simp only at h hs hcount
    split at h
    · next hletter =>
      split at h
      · next faces after hfaces =>
        obtain ⟨f, rfl, hdigits, rfl, -⟩ := of_natural?_eq_some hfaces
        obtain ⟨k, left, hkeep, hdone⟩ := Reply.andThen_eq_done h
        obtain ⟨kept, rfl, hkept⟩ := keep_sound hkeep
        split at hdone
        · cases hdone
        split at hdone
        · cases hdone
        split at hdone
        · cases hdone
        next hface hdice hfew =>
        cases hdone
        refine ⟨a ++ c :: (f ++ kept), _, by simpa using hs, ?_, rfl⟩
        exact .intro (hcount (by omega)) (by simpa using hletter) hdigits (by omega) (by omega)
          hkept
      · cases h
    · cases h

theorem numberForm_sound (h : numberForm s = .done e rest) :
    ∃ w x, s = w ++ rest ∧ IsNumeral w x ∧ e = .number x := by
  have hs : s = s.takeWhile isDigit ++ s.dropWhile isDigit :=
    List.takeWhile_append_dropWhile.symm
  simp only [numberForm, Binary64.digitRun] at h
  by_cases hwhole : s.takeWhile isDigit = []
  · simp [hwhole] at h
  · have hdigits := digits_takeWhile hwhole
    simp only [List.isEmpty_iff, hwhole, if_false] at h
    split at h
    · next more hmore =>
      by_cases hfraction : more.takeWhile isDigit = []
      · simp only [hfraction, if_true] at h
        cases h
        exact ⟨_, _, hs, .whole hdigits, rfl⟩
      · simp only [hfraction, if_false] at h
        cases h
        refine ⟨s.takeWhile isDigit ++ '.' :: more.takeWhile isDigit, _, ?_,
          .point hdigits (digits_takeWhile hfraction), rfl⟩
        simpa [hmore] using hs
    · cases h
      exact ⟨_, _, hs, .whole hdigits, rfl⟩

theorem pathForm_sound (h : pathForm s = .done e rest) :
    ∃ w, s = '@' :: (w ++ rest) ∧ w ≠ [] ∧ (∀ c ∈ w, isPathChar c = true) ∧
      e = .path (pathName w) := by
  simp only [pathForm] at h
  split at h
  · next s =>
    by_cases hname : s.takeWhile isPathChar = []
    · simp [hname] at h
    · simp only [List.isEmpty_iff, hname, if_false] at h
      cases h
      exact ⟨s.takeWhile isPathChar, by simp, hname, fun _ hc => List.mem_takeWhile_imp hc, rfl⟩
  · cases h

/-! Rules -/

theorem of_sumOp?_eq_some {c : Char} {op : BinaryOp} (h : sumOp? c = some op) :
    c = op.symbol ∧ op.precedence = 1 := by
  unfold sumOp? at h
  split at h <;> cases h <;> exact ⟨rfl, rfl⟩

theorem of_termOp?_eq_some {c : Char} {op : BinaryOp} (h : termOp? c = some op) :
    c = op.symbol ∧ op.precedence = 2 := by
  unfold termOp? at h
  split at h <;> cases h <;> exact ⟨rfl, rfl⟩

-- The operands of the links are of this level, and their operators of this precedence.
structure Chained (level : Level) (precedence : Nat) (links : List Link) : Prop where
  gaps : ∀ l ∈ links, Gap l.gap
  ops : ∀ l ∈ links, l.op.precedence = precedence
  operands : ∀ l ∈ links, Derives level l.word l.formula

theorem Chained.nil {level : Level} {precedence : Nat} : Chained level precedence [] :=
  ⟨by simp, by simp, by simp⟩

theorem Chained.cons {level : Level} {precedence : Nat} {l : Link} {links : List Link}
    (gap : Gap l.gap) (op : l.op.precedence = precedence)
    (operand : Derives level l.word l.formula) (more : Chained level precedence links) :
    Chained level precedence (l :: links) :=
  ⟨List.forall_mem_cons.2 ⟨gap, more.gaps⟩, List.forall_mem_cons.2 ⟨op, more.ops⟩,
    List.forall_mem_cons.2 ⟨operand, more.operands⟩⟩

-- What each rule takes when it has so many steps. The chains and the arguments come after a gap
-- that was taken before them.
structure Sound (n : Nat) : Prop where
  sum : ∀ {s e rest}, sum n s = .done e rest →
    ∃ w g, s = w ++ (g ++ rest) ∧ Gap g ∧ Derives .sum w e
  sumRest : ∀ {s lhs e rest g₀}, sumRest n lhs s = .done e rest → Gap g₀ →
    ∃ links g, g₀ ++ s = links.flatMap Link.text ++ (g ++ rest) ∧ Gap g ∧
      Chained .term 1 links ∧ e = links.foldl Link.join lhs
  term : ∀ {s e rest}, term n s = .done e rest →
    ∃ w g, s = w ++ (g ++ rest) ∧ Gap g ∧ Derives .term w e
  termRest : ∀ {s lhs e rest g₀}, termRest n lhs s = .done e rest → Gap g₀ →
    ∃ links g, g₀ ++ s = links.flatMap Link.text ++ (g ++ rest) ∧ Gap g ∧
      Chained .sign 2 links ∧ e = links.foldl Link.join lhs
  sign : ∀ {s e rest}, sign n s = .done e rest → ∃ w, s = w ++ rest ∧ Derives .sign w e
  atom : ∀ {s e rest}, atom n s = .done e rest → ∃ w, s = w ++ rest ∧ Derives .atom w e
  callForm : ∀ {s e rest}, callForm n s = .done e rest →
    ∃ w, s = w ++ rest ∧ ∀ g, Gap g → Derives .atom (g ++ w) e
  arguments : ∀ {s args all rest g₀}, arguments n args s = .done all rest → Gap g₀ →
    ∃ (others : List Further) (g : List Char), g₀ ++ s = others.flatMap Further.text ++ (g ++ rest) ∧
      Gap g ∧ (∀ a ∈ others, Gap a.gap) ∧ (∀ a ∈ others, Derives .sum a.word a.formula) ∧
      all = args ++ others.map Further.formula
  groupForm : ∀ {s e rest}, groupForm n s = .done e rest →
    ∃ w, s = w ++ rest ∧ ∀ g, Gap g → Derives .atom (g ++ w) e

variable {all args : List Formula} {lhs : Formula} {g₀ : List Char}

theorem Sound.sum_succ (ih : Sound n) (h : Formula.sum (n + 1) s = .done e rest) :
    ∃ w g, s = w ++ (g ++ rest) ∧ Gap g ∧ Derives .sum w e := by
  rw [Formula.sum] at h
  obtain ⟨first, mid, hfirst, hdone⟩ := Reply.andThen_eq_done h
  obtain ⟨w, g₀, rfl, hgap₀, hw⟩ := ih.term hfirst
  obtain ⟨links, g, hs, hgap, hlinks, rfl⟩ := ih.sumRest hdone hgap₀
  exact ⟨w ++ links.flatMap Link.text, g, by rw [hs, List.append_assoc], hgap,
    .sum hw hlinks.gaps hlinks.ops hlinks.operands⟩

theorem Sound.term_succ (ih : Sound n) (h : Formula.term (n + 1) s = .done e rest) :
    ∃ w g, s = w ++ (g ++ rest) ∧ Gap g ∧ Derives .term w e := by
  rw [Formula.term] at h
  obtain ⟨first, mid, hfirst, hdone⟩ := Reply.andThen_eq_done h
  obtain ⟨w, rfl, hw⟩ := ih.sign hfirst
  obtain ⟨links, g, hs, hgap, hlinks, rfl⟩ := ih.termRest hdone gap_nil
  exact ⟨w ++ links.flatMap Link.text, g, by rw [List.append_assoc, ← hs, List.nil_append], hgap,
    .term hw hlinks.gaps hlinks.ops hlinks.operands⟩

theorem Sound.sumRest_succ (ih : Sound n) (h : Formula.sumRest (n + 1) lhs s = .done e rest)
    (hgap₀ : Gap g₀) :
    ∃ links g, g₀ ++ s = links.flatMap Link.text ++ (g ++ rest) ∧ Gap g ∧
      Chained .term 1 links ∧ e = links.foldl Link.join lhs := by
  obtain ⟨g₁, hgap₁, hs⟩ := exists_gap s
  rw [Formula.sumRest] at h
  split at h
  · next hnil =>
    cases h
    rw [hnil, List.append_nil] at hs
    exact ⟨[], g₀ ++ s, by simp, hgap₀.append (hs ▸ hgap₁), .nil, rfl⟩
  · next c more hmore =>
    rw [hmore] at hs
    split at h
    · next op hop =>
      obtain ⟨rfl, hprecedence⟩ := of_sumOp?_eq_some hop
      obtain ⟨rhs, mid, hrhs, hdone⟩ := Reply.andThen_eq_done h
      obtain ⟨v, g₂, rfl, hgap₂, hv⟩ := ih.term (Reply.commit_eq_done hrhs)
      obtain ⟨links, g, htext, hgap, hlinks, rfl⟩ := ih.sumRest hdone hgap₂
      refine ⟨⟨g₀ ++ g₁, op, v, rhs⟩ :: links, g, ?_, hgap,
        .cons (hgap₀.append hgap₁) hprecedence hv hlinks, rfl⟩
      simp [hs, htext, Link.text]
    · cases h
      exact ⟨[], g₀ ++ g₁, by simp [hs], hgap₀.append hgap₁, .nil, rfl⟩

theorem Sound.termRest_succ (ih : Sound n) (h : Formula.termRest (n + 1) lhs s = .done e rest)
    (hgap₀ : Gap g₀) :
    ∃ links g, g₀ ++ s = links.flatMap Link.text ++ (g ++ rest) ∧ Gap g ∧
      Chained .sign 2 links ∧ e = links.foldl Link.join lhs := by
  obtain ⟨g₁, hgap₁, hs⟩ := exists_gap s
  rw [Formula.termRest] at h
  split at h
  · next hnil =>
    cases h
    rw [hnil, List.append_nil] at hs
    exact ⟨[], g₀ ++ s, by simp, hgap₀.append (hs ▸ hgap₁), .nil, rfl⟩
  · next c more hmore =>
    rw [hmore] at hs
    split at h
    · next op hop =>
      obtain ⟨rfl, hprecedence⟩ := of_termOp?_eq_some hop
      obtain ⟨rhs, mid, hrhs, hdone⟩ := Reply.andThen_eq_done h
      obtain ⟨v, rfl, hv⟩ := ih.sign (Reply.commit_eq_done hrhs)
      obtain ⟨links, g, htext, hgap, hlinks, rfl⟩ := ih.termRest hdone gap_nil
      refine ⟨⟨g₀ ++ g₁, op, v, rhs⟩ :: links, g, ?_, hgap,
        .cons (hgap₀.append hgap₁) hprecedence hv hlinks, rfl⟩
      simpa [hs, Link.text] using htext
    · cases h
      exact ⟨[], g₀ ++ g₁, by simp [hs], hgap₀.append hgap₁, .nil, rfl⟩

theorem Sound.sign_succ (ih : Sound n) (h : Formula.sign (n + 1) s = .done e rest) :
    ∃ w, s = w ++ rest ∧ Derives .sign w e := by
  obtain ⟨g, hgap, hs⟩ := exists_gap s
  rw [Formula.sign] at h
  split at h
  · next more hmore =>
    obtain ⟨inner, hinner, rfl⟩ := Reply.map_eq_done h
    obtain ⟨w, rfl, hw⟩ := ih.sign (Reply.commit_eq_done hinner)
    exact ⟨g ++ '-' :: w, by simpa [hmore] using hs, .minus hgap hw⟩
  · next more hmore =>
    obtain ⟨w, rfl, hw⟩ := ih.atom h
    exact ⟨g ++ '+' :: w, by simpa [hmore] using hs, .plus hgap hw⟩
  · obtain ⟨w, hw, hatom⟩ := ih.atom h
    exact ⟨g ++ w, by simpa [hw] using hs, .bare (hatom.gap_append hgap)⟩

theorem Sound.atom_succ (ih : Sound n) (h : Formula.atom (n + 1) s = .done e rest) :
    ∃ w, s = w ++ rest ∧ Derives .atom w e := by
  obtain ⟨g, hgap, hs⟩ := exists_gap s
  rw [Formula.atom] at h
  have hforms := Reply.within_eq_done h
  suffices hw : ∃ w, skipGaps s = w ++ rest ∧ ∀ g, Gap g → Derives .atom (g ++ w) e by
    obtain ⟨w, hw, hatom⟩ := hw
    exact ⟨g ++ w, by rw [hs, hw, List.append_assoc], hatom g hgap⟩
  obtain hforms | hgroup := Reply.orElse_eq_done hforms
  · obtain hforms | hcall := Reply.orElse_eq_done hforms
    · obtain hforms | hpath := Reply.orElse_eq_done hforms
      · obtain hdice | hnumber := Reply.orElse_eq_done hforms
        · obtain ⟨w, term, hw, hthrow, rfl⟩ := diceForm_sound hdice
          exact ⟨w, hw, fun g hgap => .dice hgap hthrow⟩
        · obtain ⟨w, x, hw, hnumeral, rfl⟩ := numberForm_sound hnumber
          exact ⟨w, hw, fun g hgap => .number hgap hnumeral⟩
      · obtain ⟨w, hw, hsome, hchars, rfl⟩ := pathForm_sound hpath
        exact ⟨'@' :: w, hw, fun g hgap => .path hgap hsome hchars⟩
    · exact ih.callForm hcall
  · exact ih.groupForm hgroup

theorem of_ofName?_eq_some {name : String} {builtin : Builtin}
    (h : Builtin.ofName? name = some builtin) : builtin.name = name := by
  unfold Builtin.ofName? at h
  simpa using List.find?_some h

theorem Sound.callForm_succ (ih : Sound n) (h : Formula.callForm (n + 1) s = .done e rest) :
    ∃ w, s = w ++ rest ∧ ∀ g, Gap g → Derives .atom (g ++ w) e := by
  have hs : s = s.takeWhile isLetter ++ s.dropWhile isLetter :=
    List.takeWhile_append_dropWhile.symm
  simp only [Formula.callForm] at h
  split at h
  · cases h
  split at h
  · cases h
  · next builtin hname =>
    obtain ⟨g₁, hgap₁, hopening⟩ := exists_gap (s.dropWhile isLetter)
    have hletters := of_ofName?_eq_some hname
    split at h
    · next behind hbehind =>
      obtain ⟨first, mid, hfirst, hmore⟩ := Reply.andThen_eq_done h
      obtain ⟨args, left, hargs, hdone⟩ := Reply.andThen_eq_done hmore
      obtain ⟨w, g₂, rfl, hgap₂, hw⟩ := ih.sum hfirst
      obtain ⟨others, g₃, htext, hgap₃, hgaps, hothers, rfl⟩ := ih.arguments hargs hgap₂
      obtain ⟨g₄, hgap₄, hclosing⟩ := exists_gap left
      split at hdone
      · next after hafter =>
        cases hdone
        refine ⟨_, ?_, fun g hgap => .call hgap hgap₁ (hgap₃.append hgap₄) hw hgaps hothers⟩
        rw [hs, hopening, hbehind, htext, hclosing, hafter, hletters]
        simp
      · cases hdone
    · cases h

theorem Sound.arguments_succ (ih : Sound n)
    (h : Formula.arguments (n + 1) args s = .done all rest) (hgap₀ : Gap g₀) :
    ∃ (others : List Further) (g : List Char),
      g₀ ++ s = others.flatMap Further.text ++ (g ++ rest) ∧ Gap g ∧
      (∀ a ∈ others, Gap a.gap) ∧ (∀ a ∈ others, Derives .sum a.word a.formula) ∧
      all = args ++ others.map Further.formula := by
  have hend : Reply.done args s = .done all rest → ∃ (others : List Further) (g : List Char),
      g₀ ++ s = others.flatMap Further.text ++ (g ++ rest) ∧ Gap g ∧
      (∀ a ∈ others, Gap a.gap) ∧ (∀ a ∈ others, Derives .sum a.word a.formula) ∧
      all = args ++ others.map Further.formula := by
    intro hdone
    cases hdone
    exact ⟨[], g₀, rfl, hgap₀, by simp, by simp, by simp⟩
  obtain ⟨g₁, hgap₁, hs⟩ := exists_gap s
  rw [Formula.arguments] at h
  split at h
  · next more hmore =>
    split at h
    · next arg left harg =>
      obtain ⟨w, g₂, rfl, hgap₂, hw⟩ := ih.sum harg
      obtain ⟨others, g, htext, hgap, hgaps, hothers, rfl⟩ := ih.arguments h hgap₂
      refine ⟨⟨g₀ ++ g₁, w, arg⟩ :: others, g, ?_, hgap,
        List.forall_mem_cons.2 ⟨hgap₀.append hgap₁, hgaps⟩,
        List.forall_mem_cons.2 ⟨hw, hothers⟩, by simp⟩
      rw [hs, hmore, htext]
      simp [Further.text]
    · exact hend h
    · cases h
  · exact hend h

theorem Sound.groupForm_succ (ih : Sound n) (h : Formula.groupForm (n + 1) s = .done e rest) :
    ∃ w, s = w ++ rest ∧ ∀ g, Gap g → Derives .atom (g ++ w) e := by
  unfold Formula.groupForm at h
  split at h
  · next s =>
    obtain ⟨inner, left, hinner, hdone⟩ := Reply.andThen_eq_done h
    obtain ⟨w, g₁, rfl, hgap₁, hw⟩ := ih.sum hinner
    obtain ⟨g₂, hgap₂, hclosing⟩ := exists_gap left
    split at hdone
    · next after hafter =>
      cases hdone
      refine ⟨_, ?_, fun g hgap => .group hgap (hgap₁.append hgap₂) hw⟩
      rw [hclosing, hafter]
      simp
    · cases hdone
  · cases h

theorem sound (n : Nat) : Sound n := by
  induction n with
  | zero => constructor <;> intros <;> contradiction
  | succ n ih =>
    constructor
    · intro s e rest h
      exact ih.sum_succ h
    · intro s lhs e rest g₀ h hgap₀
      exact ih.sumRest_succ h hgap₀
    · intro s e rest h
      exact ih.term_succ h
    · intro s lhs e rest g₀ h hgap₀
      exact ih.termRest_succ h hgap₀
    · intro s e rest h
      exact ih.sign_succ h
    · intro s e rest h
      exact ih.atom_succ h
    · intro s e rest h
      exact ih.callForm_succ h
    · intro s args all rest g₀ h hgap₀
      exact ih.arguments_succ h hgap₀
    · intro s e rest h
      exact ih.groupForm_succ h

end Tabletop.Formula
