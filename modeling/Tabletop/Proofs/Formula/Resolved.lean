import Mathlib.Data.List.Forall2
import Tabletop.Proofs.Binary64.Alike
import Tabletop.Proofs.Formula.Completeness
import Tabletop.Proofs.Formula.Evaluation
import Tabletop.Proofs.Formula.Literals

-- The formula that an evaluation shows means what was computed: it is read back with the values in
-- place of the paths, comes to the same total and shows itself again.
namespace Tabletop.Formula

open Tabletop.Text Tabletop.Binary64

variable {data data' : RollData} {dice dice' : Dice} {e e' : Formula} {v : Evaluation}
  {x : Binary64}

/-! Formulas and what they are made of -/

mutual

-- A formula and all formulas within.
def nodes : Formula → List Formula
  | .number x => [.number x]
  | .dice term => [.dice term]
  | .path name => [.path name]
  | .neg inner => .neg inner :: nodes inner
  | .binary op lhs rhs => .binary op lhs rhs :: (nodes lhs ++ nodes rhs)
  | .call builtin args => .call builtin args :: allNodes args

def allNodes : List Formula → List Formula
  | [] => []
  | arg :: rest => nodes arg ++ allNodes rest

end

def Diceless (e : Formula) : Prop := ∀ term, .dice term ∉ e.nodes

-- The literals and the values that are looked up.
def values (data : RollData) (e : Formula) : List Binary64 :=
  e.nodes.filterMap fun
    | .number x => some x
    | .path name => (lookUp data name).toOption
    | _ => none

-- How a number is read where it is shown.
def literal : Binary64 → Formula
  | .finite true (u + 1) h => .neg (.number (.finite false (u + 1) h))
  | x => .number x.abs

-- An argument, its value and the formula that the value is shown as.
structure Argument where
  formula : Formula
  value : Evaluation
  resolved : Formula

-- The values of formulas without dice, and the formulas that these are shown as.
inductive Resolves (data : RollData) : Formula → Evaluation → Formula → Prop
  | number {x : Binary64} (finite : x.isFinite = true) :
    Resolves data (.number x) ⟨x, x.format⟩ (literal x)
  | path {name : String} {x : Binary64} (found : lookUp data name = .ok x)
    (finite : x.isFinite = true) :
    Resolves data (.path name) ⟨x, x.format⟩ (literal x)
  | neg {e e' : Formula} {v : Evaluation} (inner : Resolves data e v e') :
    Resolves data (.neg e) ⟨-v.total, "-" ++ parens e.isBinary v.formula⟩ (.neg e')
  | binary {op : BinaryOp} {lhs lhs' rhs rhs' : Formula} {l r : Evaluation} {total : Binary64}
    (left : Resolves data lhs l lhs') (right : Resolves data rhs r rhs')
    (applied : applyOp op l.total r.total = .ok total) :
    Resolves data (.binary op lhs rhs)
      ⟨total, parens (needsParens op false lhs) l.formula ++ " " ++ String.singleton op.symbol ++
        " " ++ parens (needsParens op true rhs) r.formula⟩
      (.binary op lhs' rhs')
  | call {builtin : Builtin} {args : List Argument} {total : Binary64} (some_arg : args ≠ [])
    (each : ∀ a ∈ args, Resolves data a.formula a.value a.resolved)
    (applied : applyBuiltin builtin (args.map (·.value.total)) = .ok total) :
    Resolves data (.call builtin (args.map Argument.formula))
      ⟨total, builtin.name ++ "(" ++ commaList (args.map (·.value.formula)) ++ ")"⟩
      (.call builtin (args.map Argument.resolved))

/-! Evaluation -/

theorem evalAll_eq_ok {args : List Argument}
    (each : ∀ a ∈ args, ∀ dice, (eval data a.formula).run dice = (.ok a.value, dice)) :
    (evalAll data (args.map Argument.formula)).run dice = (.ok (args.map Argument.value), dice) := by
  induction args with
  | nil => rfl
  | cons a args ih =>
    simp only [List.forall_mem_cons] at each
    rw [List.map_cons, evalAll, run_bind, each.1]
    simp only
    rw [run_bind, ih each.2]
    rfl

theorem Resolves.eval (h : Resolves data e v e') :
    ∀ dice, (eval data e).run dice = (.ok v, dice) := by
  induction h with
  | number => exact fun _ => rfl
  | path found =>
    intro dice
    rw [Formula.eval]
    exact run_lift_bind found _ dice
  | neg _ inner =>
    intro dice
    rw [Formula.eval, run_bind, inner]
    rfl
  | binary _ _ applied left right =>
    intro dice
    rw [Formula.eval, run_bind, left]
    simp only
    rw [run_bind, right]
    exact run_lift_bind applied _ dice
  | call _ _ applied each =>
    intro dice
    rw [Formula.eval, run_bind, evalAll_eq_ok each]
    simp only [List.map_map]
    exact run_lift_bind applied _ dice

-- What an evaluation asks of a part of a formula so that the text of it is read back.
def Settled (data : RollData) : Formula → Prop
  | .number x => x.isFinite = true
  | .path name => ∀ x, lookUp data name = .ok x → x.isFinite = true
  | .dice _ => False
  | .call _ args => args ≠ []
  | _ => True

mutual

theorem resolves_of_eval {e : Formula} {v : Evaluation} {dice dice' : Dice}
    (h : (eval data e).run dice = (.ok v, dice'))
    (settled : ∀ n ∈ e.nodes, Settled data n) :
    dice' = dice ∧ ∃ e', Resolves data e v e' := by
  cases e with
  | number x =>
    cases h
    exact ⟨rfl, _, .number (settled (.number x) (by simp [nodes]))⟩
  | dice term => exact False.elim (settled (.dice term) (by simp [nodes]))
  | path name =>
    rw [eval] at h
    obtain ⟨x, found, hdone⟩ := run_lift_bind_eq_ok h
    cases hdone
    exact ⟨rfl, _, .path found (settled (.path name) (by simp [nodes]) x found)⟩
  | neg inner =>
    rw [eval] at h
    simp only [nodes, List.forall_mem_cons] at settled
    obtain ⟨w, mid, hinner, hdone⟩ := run_bind_eq_ok h
    obtain ⟨rfl, e', hresolves⟩ := resolves_of_eval hinner settled.2
    cases hdone
    exact ⟨rfl, _, .neg hresolves⟩
  | binary op lhs rhs =>
    rw [eval] at h
    simp only [nodes, List.forall_mem_cons, List.forall_mem_append] at settled
    obtain ⟨l, mid, hleft, hrest⟩ := run_bind_eq_ok h
    obtain ⟨r, mid', hright, happly⟩ := run_bind_eq_ok hrest
    obtain ⟨rfl, lhs', hlhs⟩ := resolves_of_eval hleft settled.2.1
    obtain ⟨rfl, rhs', hrhs⟩ := resolves_of_eval hright settled.2.2
    obtain ⟨total, applied, hdone⟩ := run_lift_bind_eq_ok happly
    cases hdone
    exact ⟨rfl, _, .binary hlhs hrhs applied⟩
  | call builtin args =>
    rw [eval] at h
    simp only [nodes, List.forall_mem_cons] at settled
    obtain ⟨vs, mid, hargs, happly⟩ := run_bind_eq_ok h
    obtain ⟨rfl, parts, rfl, rfl, each⟩ := resolves_of_evalAll hargs settled.2
    obtain ⟨total, applied, hdone⟩ := run_lift_bind_eq_ok happly
    cases hdone
    rw [List.map_map] at applied
    refine ⟨rfl, .call builtin (parts.map Argument.resolved), ?_⟩
    rw [List.map_map]
    exact .call (by simpa [Settled] using settled.1) each applied

theorem resolves_of_evalAll {es : List Formula} {vs : List Evaluation} {dice dice' : Dice}
    (h : (evalAll data es).run dice = (.ok vs, dice'))
    (settled : ∀ n ∈ allNodes es, Settled data n) :
    dice' = dice ∧ ∃ args : List Argument, args.map Argument.formula = es ∧
      args.map Argument.value = vs ∧ ∀ a ∈ args, Resolves data a.formula a.value a.resolved := by
  cases es with
  | nil =>
    cases h
    exact ⟨rfl, [], rfl, rfl, by simp⟩
  | cons e es =>
    rw [evalAll] at h
    simp only [allNodes, List.forall_mem_append] at settled
    obtain ⟨v, mid, hhead, hrest⟩ := run_bind_eq_ok h
    obtain ⟨vs, mid', htail, hdone⟩ := run_bind_eq_ok hrest
    obtain ⟨rfl, e', hresolves⟩ := resolves_of_eval hhead settled.1
    obtain ⟨rfl, args, rfl, rfl, each⟩ := resolves_of_evalAll htail settled.2
    cases hdone
    exact ⟨rfl, ⟨e, v, e'⟩ :: args, rfl, rfl, List.forall_mem_cons.2 ⟨hresolves, each⟩⟩

end

/-! Texts -/

-- A text for a formula, at the tightest level that the outermost operator of the formula allows.
structure Shows (t : List Char) (e : Formula) : Prop where
  sum : Derives .sum t e
  term : needsParens .mul false e = false → Derives .term t e
  sign : e.isBinary = false → Derives .sign t e

theorem Derives.shows {t : List Char} (h : Derives .sign t e) : Shows t e :=
  ⟨h.of_sign.of_term, fun _ => h.of_sign, fun _ => h⟩

theorem Shows.group {t : List Char} (h : Shows t e) : Derives .atom ('(' :: (t ++ [')'])) e :=
  .group (g := []) (k := []) gap_nil gap_nil h.sum

theorem toList_parens (wrap : Bool) (text : String) :
    (parens wrap text).toList = if wrap then '(' :: (text.toList ++ [')']) else text.toList := by
  cases wrap <;> simp [parens]

theorem Shows.sign_parens {text : String} (h : Shows text.toList e) :
    Derives .sign (parens e.isBinary text).toList e := by
  rw [toList_parens]
  split
  · exact h.group.bare
  · next hbinary => exact h.sign (Bool.eq_false_iff.2 hbinary)

theorem Shows.neg {text : String} (h : Shows text.toList e) :
    Shows ("-" ++ parens e.isBinary text).toList (.neg e) := by
  rw [String.toList_append]
  exact (Derives.minus (g := []) gap_nil h.sign_parens).shows

theorem shows_literal (h : x.isFinite = true) : Shows x.format.toList (literal x) := by
  cases x with
  | infinite | nan => cases h
  | finite s u hu =>
    have hatom : Derives .atom (Binary64.finite false u hu).format.toList
        (.number (.finite false u hu)) := .number (g := []) gap_nil (numeral_format hu)
    cases s with
    | false => exact hatom.bare.shows
    | true =>
      cases u with
      | zero =>
        have hzero : Binary64.format (.finite true 0 hu) = Binary64.format (.finite false 0 hu) := by
          rw [format_zero, format_zero]
        rw [hzero]
        exact hatom.bare.shows
      | succ u =>
        rw [format_negative hu (Nat.succ_ne_zero u), String.toList_append]
        exact (Derives.minus (g := []) gap_nil hatom.bare).shows

-- What an operand is read as decides on its parentheses, and that stays.
theorem Resolves.needsParens_eq (h : Resolves data e v e') (op : BinaryOp) (right : Bool) :
    needsParens op right e' = needsParens op right e := by
  have hleaf : ∀ x, needsParens op right (literal x) = false := by
    intro x
    unfold literal
    split <;> rfl
  cases h with
  | number | path => exact hleaf _
  | neg | binary | call => rfl

theorem Resolves.isBinary_eq (h : Resolves data e v e') : e'.isBinary = e.isBinary := by
  have hleaf : ∀ x, (literal x).isBinary = false := by
    intro x
    unfold literal
    split <;> rfl
  cases h with
  | number | path => exact hleaf _
  | neg | binary | call => rfl

-- Only a sum is wrapped on the left of a product and on the right of a sum.
theorem needsParens_left {op : BinaryOp} (hop : op.precedence = 2) (e : Formula) :
    needsParens op false e = needsParens .mul false e := by
  cases e with
  | binary => simp [needsParens, hop, show BinaryOp.mul.precedence = 2 from rfl]
  | number | dice | path | neg | call => rfl

theorem needsParens_right {op : BinaryOp} (hop : op.precedence = 1) (e : Formula) :
    needsParens op true e = needsParens .mul false e := by
  cases e with
  | binary op' =>
    simp only [needsParens, hop]
    cases op' <;> rfl
  | number | dice | path | neg | call => rfl

theorem needsParens_right_term {op : BinaryOp} (hop : op.precedence = 2) (e : Formula) :
    needsParens op true e = e.isBinary := by
  cases e with
  | binary op' =>
    simp only [needsParens, hop]
    cases op' <;> rfl
  | number | dice | path | neg | call => rfl

theorem Shows.left {text : String} {op : BinaryOp} (h : Shows text.toList e) :
    (op.precedence = 1 → Derives .sum (parens (needsParens op false e) text).toList e) ∧
      (op.precedence = 2 → Derives .term (parens (needsParens op false e) text).toList e) := by
  rw [toList_parens]
  split
  · exact ⟨fun _ => h.group.bare.of_sign.of_term, fun _ => h.group.bare.of_sign⟩
  · next hparens =>
    refine ⟨fun _ => h.sum, fun hop => h.term ?_⟩
    rwa [needsParens_left hop, Bool.not_eq_true] at hparens

theorem Shows.right {text : String} {op : BinaryOp} (h : Shows text.toList e) :
    (op.precedence = 1 → Derives .term (parens (needsParens op true e) text).toList e) ∧
      (op.precedence = 2 → Derives .sign (parens (needsParens op true e) text).toList e) := by
  rw [toList_parens]
  split
  · exact ⟨fun _ => h.group.bare.of_sign, fun _ => h.group.bare⟩
  · next hparens =>
    rw [Bool.not_eq_true] at hparens
    refine ⟨fun hop => h.term ?_, fun hop => h.sign ?_⟩
    · rwa [needsParens_right hop] at hparens
    · rwa [needsParens_right_term hop] at hparens

theorem Shows.binary {op : BinaryOp} {lhs rhs : Formula} {l r : String} (hl : Shows l.toList lhs)
    (hr : Shows r.toList rhs) :
    Shows (parens (needsParens op false lhs) l ++ " " ++ String.singleton op.symbol ++ " " ++
      parens (needsParens op true rhs) r).toList (.binary op lhs rhs) := by
  have hspace : Gap [' '] := by decide
  generalize hleft : (parens (needsParens op false lhs) l).toList = left
  generalize hright : (parens (needsParens op true rhs) r).toList = right
  have htext : (parens (needsParens op false lhs) l ++ " " ++ String.singleton op.symbol ++ " " ++
      parens (needsParens op true rhs) r).toList =
        left ++ Link.text ⟨[' '], op, ' ' :: right, rhs⟩ := by
    simp [← hleft, ← hright, Link.text]
  rw [htext]
  obtain hop | hop : op.precedence = 1 ∨ op.precedence = 2 := by cases op <;> simp [BinaryOp.precedence]
  · have hsum := (hleft ▸ hl.left.1 hop).sum_append (l := ⟨[' '], op, ' ' :: right, rhs⟩) hspace hop
      ((hright ▸ hr.right.1 hop).gap_append hspace)
    refine ⟨hsum, fun hparens => ?_, fun hbinary => by cases hbinary⟩
    simp [needsParens, hop, show BinaryOp.mul.precedence = 2 from rfl] at hparens
  · have hterm := (hleft ▸ hl.left.2 hop).term_append (l := ⟨[' '], op, ' ' :: right, rhs⟩) hspace hop
      ((hright ▸ hr.right.2 hop).gap_append hspace)
    exact ⟨hterm.of_term, fun _ => hterm, fun hbinary => by cases hbinary⟩

-- The first argument follows the parenthesis, and each other one a comma and a blank.
theorem toList_commaList (first : String) (others : List String) :
    (commaList (first :: others)).toList =
      first.toList ++ others.flatMap fun text => ',' :: ' ' :: text.toList := by
  induction others generalizing first with
  | nil => simp [commaList]
  | cons text others ih =>
    have htail := ih text
    simp only [commaList, String.toList_intercalate, List.map_cons] at htail ⊢
    rw [List.intercalate_cons_cons, htail]
    simp

theorem shows_call {builtin : Builtin} {args : List Argument} (some_arg : args ≠ [])
    (each : ∀ a ∈ args, Shows a.value.formula.toList a.resolved) :
    Shows (builtin.name ++ "(" ++ commaList (args.map (·.value.formula)) ++ ")").toList
      (.call builtin (args.map Argument.resolved)) := by
  cases args with
  | nil => exact absurd rfl some_arg
  | cons first others =>
    simp only [List.forall_mem_cons] at each
    have hcall := @Derives.call [] [] [] _ builtin _
      (others.map fun a => ⟨[], ' ' :: a.value.formula.toList, a.resolved⟩) gap_nil gap_nil gap_nil
      each.1.sum
      (by simp) (by
        simp only [List.forall_mem_map]
        exact fun a ha => (each.2 a ha).sum.gap_append (g := [' ']) (by decide))
    refine Derives.shows (Derives.bare ?_)
    simpa [toList_commaList, List.flatMap_map, List.map_map, Function.comp_def, Further.text] using
      hcall

theorem Resolves.shows (h : Resolves data e v e') : Shows v.formula.toList e' := by
  induction h with
  | number finite | path _ finite => exact shows_literal finite
  | neg inner ih =>
    rw [← inner.isBinary_eq]
    exact ih.neg
  | binary left right _ lhs rhs =>
    rw [← left.needsParens_eq, ← right.needsParens_eq]
    exact lhs.binary rhs
  | call some_arg _ _ each => exact shows_call some_arg each

/-! Totals -/

-- A division that succeeds has a divisor other than zero, which is alike to itself only.
theorem eq_of_not_zero {r r' : Binary64} (h : Alike r r') (hzero : ¬ r.same 0 = true) : r' = r := by
  obtain rfl | ⟨s, t, rfl, rfl⟩ := h.eq_or_zeros
  · rfl
  · exact absurd ((same_iff_rank rfl rank_zero).2 (signed_zero s)) hzero

theorem applyOp_alike {op : BinaryOp} {l l' r r' total : Binary64} (hl : Alike l l')
    (hr : Alike r r') (h : applyOp op l r = .ok total) :
    ∃ total', applyOp op l' r' = .ok total' ∧ Alike total total' := by
  cases op with
  | add =>
    cases h
    exact ⟨_, rfl, hl.add hr⟩
  | sub =>
    cases h
    exact ⟨_, rfl, hl.sub hr⟩
  | mul =>
    cases h
    exact ⟨_, rfl, hl.mul hr⟩
  | div =>
    simp only [applyOp] at h ⊢
    split at h
    · cases h
    · next hzero =>
      cases h
      rw [eq_of_not_zero hr hzero, if_neg hzero]
      exact ⟨_, rfl, hl.div r⟩
  | rem =>
    simp only [applyOp] at h ⊢
    split at h
    · cases h
    · next hzero =>
      cases h
      rw [eq_of_not_zero hr hzero, if_neg hzero]
      exact ⟨_, rfl, hl.rem r⟩

theorem foldl_alike {f : Binary64 → Binary64 → Binary64}
    (congr : ∀ {x x' y y'}, Alike x x' → Alike y y' → Alike (f x y) (f x' y'))
    {xs ys : List Binary64} (h : List.Forall₂ Alike xs ys) {a b : Binary64} (hab : Alike a b) :
    Alike (xs.foldl f a) (ys.foldl f b) := by
  induction h generalizing a b with
  | nil => exact hab
  | cons hxy _ ih => exact ih (congr hab hxy)

theorem exists_single {builtin : Builtin} {xs : List Binary64} {total : Binary64}
    (hmin : builtin ≠ .min) (hmax : builtin ≠ .max) (h : applyBuiltin builtin xs = .ok total) :
    ∃ x, xs = [x] := by
  cases builtin with
  | floor | ceil | round | abs =>
    simp only [applyBuiltin] at h
    split at h
    · exact ⟨_, rfl⟩
    · cases h
  | min => exact absurd rfl hmin
  | max => exact absurd rfl hmax

theorem applyBuiltin_alike {builtin : Builtin} {xs ys : List Binary64} {total : Binary64}
    (hargs : List.Forall₂ Alike xs ys) (h : applyBuiltin builtin xs = .ok total) :
    ∃ total', applyBuiltin builtin ys = .ok total' ∧ Alike total total' := by
  by_cases hmin : builtin = .min
  · subst hmin
    cases h
    exact ⟨_, rfl, foldl_alike Alike.min hargs (.refl _)⟩
  by_cases hmax : builtin = .max
  · subst hmax
    cases h
    exact ⟨_, rfl, foldl_alike Alike.max hargs (.refl _)⟩
  obtain ⟨x, rfl⟩ := exists_single hmin hmax h
  obtain ⟨y, hxy, rfl⟩ : ∃ y, Alike x y ∧ ys = [y] := by
    cases hargs with
    | cons hxy hnil =>
      cases hnil
      exact ⟨_, hxy, rfl⟩
  cases builtin with
  | floor =>
    cases h
    exact ⟨_, rfl, hxy.floor⟩
  | ceil =>
    cases h
    exact ⟨_, rfl, hxy.ceil⟩
  | round =>
    cases h
    exact ⟨_, rfl, hxy.round⟩
  | abs =>
    cases h
    exact ⟨_, rfl, hxy.abs⟩
  | min => exact absurd rfl hmin
  | max => exact absurd rfl hmax

theorem isFinite_abs (x : Binary64) : x.abs.isFinite = x.isFinite := by
  cases x <;> rfl

theorem literal_abs (x : Binary64) : literal x.abs = .number x.abs := by
  cases x <;> rfl

-- A literal comes to its number, and shows itself.
theorem resolves_literal (h : x.isFinite = true) :
    ∃ total, Alike x total ∧ Resolves data (literal x) ⟨total, x.format⟩ (literal x) := by
  have hnumber : Resolves data (.number x.abs) ⟨x.abs, x.abs.format⟩ (.number x.abs) := by
    simpa only [literal_abs] using Resolves.number ((isFinite_abs x).trans h)
  cases x with
  | infinite | nan => cases h
  | finite s u hu =>
    cases s with
    | false => exact ⟨_, .refl _, hnumber⟩
    | true =>
      cases u with
      | zero =>
        have hzero : Binary64.format (.finite true 0 hu) = Binary64.format (.finite false 0 hu) := by
          rw [format_zero, format_zero]
        refine ⟨_, alike_zeros true false, ?_⟩
        rw [hzero]
        exact hnumber
      | succ u =>
        refine ⟨_, .refl _, ?_⟩
        have hneg := hnumber.neg
        simp only [isBinary, parens, Bool.false_eq_true, if_false] at hneg
        rw [format_negative hu (Nat.succ_ne_zero u)]
        exact hneg

theorem Resolves.again (h : Resolves data e v e') (data' : RollData) :
    ∃ total, Alike v.total total ∧ Resolves data' e' ⟨total, v.formula⟩ e' := by
  induction h with
  | number finite | path _ finite => exact resolves_literal finite
  | neg inner ih =>
    obtain ⟨total, halike, hagain⟩ := ih
    refine ⟨-total, halike.neg, ?_⟩
    rw [← inner.isBinary_eq]
    exact hagain.neg
  | binary left right applied ihl ihr =>
    obtain ⟨l, hl, hleft⟩ := ihl
    obtain ⟨r, hr, hright⟩ := ihr
    obtain ⟨total, happlied, halike⟩ := applyOp_alike hl hr applied
    refine ⟨total, halike, ?_⟩
    rw [← left.needsParens_eq, ← right.needsParens_eq]
    have hbinary := hleft.binary hright happlied
    exact hbinary
  | @call builtin args total some_arg each applied ih =>
    choose! t halike hagain using ih
    have hargs : List.Forall₂ Alike (args.map (·.value.total)) (args.map t) :=
      List.forall₂_map_left_iff.2 (List.forall₂_map_right_iff.2 (List.forall₂_same.2 halike))
    obtain ⟨total', happlied, htotal⟩ := applyBuiltin_alike hargs applied
    refine ⟨total', htotal, ?_⟩
    have hcall := @Resolves.call data' builtin
      (args.map fun a => ⟨a.resolved, ⟨t a, a.value.formula⟩, a.resolved⟩) total'
      (by simpa using some_arg) (by simpa using hagain)
      (by simpa [Function.comp_def] using happlied)
    simpa [Function.comp_def] using hcall

/-! Whole texts -/

theorem mem_allNodes {n : Formula} {es : List Formula} :
    n ∈ allNodes es ↔ ∃ e ∈ es, n ∈ e.nodes := by
  induction es with
  | nil => simp [allNodes]
  | cons e es ih => simp [allNodes, ih]

-- What holds of the operands and is kept by operators holds of a chain.
theorem foldl_join {p : Formula → Prop} (binary : ∀ op lhs rhs, p lhs → p rhs → p (.binary op lhs rhs))
    {links : List Link} {first : Formula} (head : p first) (operands : ∀ l ∈ links, p l.formula) :
    p (links.foldl Link.join first) :=
  List.foldlRecOn links Link.join head fun lhs hlhs l hl => binary l.op lhs l.formula hlhs (operands l hl)

-- No text applies a function to nothing.
theorem Derives.call_nil_notMem {level : Level} {w : List Char} (h : Derives level w e)
    (builtin : Builtin) : .call builtin [] ∉ e.nodes := by
  have hbinary : ∀ op lhs rhs, .call builtin [] ∉ nodes lhs → .call builtin [] ∉ nodes rhs →
      .call builtin [] ∉ nodes (.binary op lhs rhs) := by
    intro op lhs rhs hlhs hrhs
    simp [nodes, hlhs, hrhs]
  induction h with
  | sum _ _ _ _ head operands | term _ _ _ _ head operands => exact foldl_join hbinary head operands
  | minus _ _ inner => simpa [nodes] using inner
  | plus _ _ inner | bare _ inner | group _ _ _ inner => exact inner
  | number | dice | path => simp [nodes]
  | call _ _ _ _ _ _ head arguments => simpa [nodes, mem_allNodes, head] using arguments

theorem settled_of_values {text : String} (h : parse text = .ok e) (diceless : e.Diceless)
    (finite : ∀ x ∈ e.values data, x.isFinite = true) : ∀ n ∈ e.nodes, Settled data n := by
  intro n hn
  cases n with
  | number x => exact finite x (List.mem_filterMap.2 ⟨_, hn, rfl⟩)
  | dice term => exact diceless term hn
  | path name =>
    intro x found
    exact finite x (List.mem_filterMap.2 ⟨_, hn, by simp [found, Except.toOption]⟩)
  | neg | binary => trivial
  | call builtin args =>
    rintro rfl
    obtain ⟨w, _, _, _, hderives⟩ := written_of_parse h
    exact hderives.call_nil_notMem builtin hn

theorem Resolves.evaluate (h : Resolves data e v e') :
    ∃ total, (Formula.evaluate v.formula data').run dice = (.ok ⟨total, v.formula⟩, dice) ∧
      v.total.Alike total := by
  obtain ⟨total, halike, hagain⟩ := h.again data'
  have hwritten : Written v.formula e' := ⟨_, [], (List.append_nil _).symm, by simp, h.shows.sum⟩
  refine ⟨total, ?_, halike⟩
  rw [run_evaluate hwritten.parse, hagain.eval]

theorem zero_eq : (0 : Binary64) = signedZero false := by decide +kernel

-- Without dice, the formula that is shown comes to the same total, up to the sign of zero, and shows
-- itself, whatever the paths stand for by then.
theorem evaluate_resolved {text : String} {result : Evaluation}
    (h : (Formula.evaluate text data).run dice = (.ok result, dice'))
    (diceless : ∀ e, parse text = .ok e → e.Diceless)
    (finite : ∀ e, parse text = .ok e → ∀ x ∈ e.values data, x.isFinite = true) (data' : RollData)
    (later : Dice) :
    ∃ total, (Formula.evaluate result.formula data').run later =
      (.ok ⟨total, result.formula⟩, later) ∧ result.total.Alike total := by
  obtain ⟨-, rfl, rfl⟩ | ⟨e, hparse, heval⟩ := evaluate_eq_ok h
  · have hzero : Resolves data (.number (signedZero false)) _ _ := .number rfl
    rw [show (signedZero false).format = "0" from format_zero _ _, ← zero_eq] at hzero
    exact hzero.evaluate
  · have hsettled := settled_of_values hparse (diceless e hparse) (finite e hparse)
    obtain ⟨-, e', hresolves⟩ := resolves_of_eval heval hsettled
    exact hresolves.evaluate

theorem parse_debt : parse "-@hp * (3 - @hp)" =
    .ok (.binary .mul (.neg (.path "hp")) (.binary .sub (.number 3) (.path "hp"))) := by
  have hpath : Derives .sign "@hp".toList (.path "hp") :=
    .bare (.path (g := []) (w := "hp".toList) gap_nil (by decide) (List.all_eq_true.1 rfl))
  have hneg : Derives .sign "-@hp".toList (.neg (.path "hp")) := .minus (g := []) gap_nil hpath
  have hthree : Derives .sign "3".toList (.number 3) := by
    have hnumber : Binary64.ofDecimal false (ofDigits ['3']) 0 = 3 := by decide +kernel
    exact hnumber ▸ .bare (.number (g := []) gap_nil (.whole (w := ['3']) (by decide)))
  have hdifference : Derives .sum "3 - @hp".toList (.binary .sub (.number 3) (.path "hp")) :=
    hthree.of_sign.of_term.sum_append (l := ⟨[' '], .sub, " @hp".toList, _⟩) (by decide) rfl
      (hpath.of_sign.gap_append (g := [' ']) (by decide))
  have hgroup : Derives .sign " (3 - @hp)".toList (.binary .sub (.number 3) (.path "hp")) :=
    .bare (.group (g := [' ']) (k := []) (by decide) gap_nil hdifference)
  refine Written.parse ⟨"-@hp * (3 - @hp)".toList, [], rfl, by simp, ?_⟩
  exact (hneg.of_sign.term_append (l := ⟨[' '], .mul, " (3 - @hp)".toList, _⟩) (by decide) rfl
    hgroup).of_term

theorem evaluate_resolved_debt :
    ((evaluate "-@hp * (3 - @hp)" (RollData.ofTree (.obj [("hp", .int (-2))]))).run .highest).1 =
        .ok ⟨10, "--2 * (3 - -2)"⟩ ∧
      ∃ total, (evaluate "--2 * (3 - -2)" Dict.empty).run .highest =
        (.ok ⟨total, "--2 * (3 - -2)"⟩, .highest) ∧ Alike 10 total := by
  have hvalues : ∀ e, parse "-@hp * (3 - @hp)" = .ok e →
      e.values (RollData.ofTree (.obj [("hp", .int (-2))])) = [-2, 3, -2] := by
    intro e h
    obtain rfl := Except.ok.inj (parse_debt.symm.trans h)
    decide +kernel
  have hdiceless : ∀ e, parse "-@hp * (3 - @hp)" = .ok e → e.Diceless := by
    intro e h
    obtain rfl := Except.ok.inj (parse_debt.symm.trans h)
    simp [Diceless, nodes]
  have hresult : ((evaluate "-@hp * (3 - @hp)" (RollData.ofTree (.obj [("hp", .int (-2))]))).run
      .highest).1 = .ok ⟨10, "--2 * (3 - -2)"⟩ := by decide +kernel
  have hrun : (evaluate "-@hp * (3 - @hp)" (RollData.ofTree (.obj [("hp", .int (-2))]))).run
      .highest = (.ok ⟨10, "--2 * (3 - -2)"⟩, ((evaluate "-@hp * (3 - @hp)"
        (RollData.ofTree (.obj [("hp", .int (-2))]))).run .highest).2) := by
    rw [← hresult, Prod.eta]
  have hfinite : ∀ e, parse "-@hp * (3 - @hp)" = .ok e →
      ∀ x ∈ e.values (RollData.ofTree (.obj [("hp", .int (-2))])), x.isFinite = true := by
    intro e h
    rw [hvalues e h]
    decide +kernel
  exact ⟨hresult, evaluate_resolved hrun hdiceless hfinite _ _⟩

end Tabletop.Formula
