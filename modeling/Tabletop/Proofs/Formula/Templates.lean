import Tabletop.Proofs.Formula.Completeness

-- Texts with places left open. Where a text in parentheses fills the places, a derived part of the
-- whole never ends within one of them, as parentheses are balanced in what is derived.
namespace Tabletop.Formula

open Tabletop.Text

/-! Parentheses -/

def deepen (k : Nat) (c : Char) : Option Nat :=
  if c = '(' then some (k + 1)
  else if c = ')' then if k = 0 then none else some (k - 1)
  else some k

-- How many parentheses are open behind a text, if none is closed that was not opened.
def depth (k : Nat) (s : List Char) : Option Nat := s.foldlM deepen k

def Balanced (s : List Char) : Prop := ∀ k, depth k s = some k

def Unparenthesized (s : List Char) : Prop := ∀ c ∈ s, c ≠ '(' ∧ c ≠ ')'

instance (s : List Char) : Decidable (Unparenthesized s) :=
  List.decidableBAll (fun c => c ≠ '(' ∧ c ≠ ')') s

variable {s t u v w : List Char} {e : Formula} {k : Nat}

theorem depth_cons (k : Nat) (c : Char) (s : List Char) :
    depth k (c :: s) = (deepen k c).bind fun j => depth j s :=
  List.foldlM_cons

theorem depth_append (k : Nat) (s t : List Char) :
    depth k (s ++ t) = (depth k s).bind fun j => depth j t :=
  List.foldlM_append

theorem Unparenthesized.balanced (h : Unparenthesized s) : Balanced s := by
  induction s with
  | nil => exact fun _ => rfl
  | cons c s ih =>
    rw [Unparenthesized, List.forall_mem_cons] at h
    intro k
    rw [depth_cons, deepen, if_neg h.1.1, if_neg h.1.2]
    exact ih h.2 k

theorem Balanced.append (hs : Balanced s) (ht : Balanced t) : Balanced (s ++ t) := by
  intro k
  rw [depth_append, hs k]
  exact ht k

theorem Balanced.wrap (h : Balanced s) : Balanced ('(' :: (s ++ [')'])) := by
  intro k
  change depth (k + 1) (s ++ [')']) = some k
  rw [depth_append, h]
  rfl

theorem unparenthesized_of_isPathChar (h : ∀ c ∈ s, isPathChar c = true) : Unparenthesized s := by
  intro c hc
  have hchar := h c hc
  constructor <;> rintro rfl <;> exact absurd hchar (by decide)

theorem Gap.unparenthesized (h : Gap s) : Unparenthesized s := by
  intro c hc
  have hgap := h c hc
  constructor <;> rintro rfl <;> exact absurd hgap (by decide)

theorem Digits.isPathChar (h : Digits s) : ∀ c ∈ s, isPathChar c = true := by
  intro c hc
  simp [Formula.isPathChar, h.2 c hc]

theorem IsNumeral.isPathChar {x : Binary64} (h : IsNumeral s x) : ∀ c ∈ s, isPathChar c = true := by
  cases h with
  | whole digits => exact digits.isPathChar
  | point digits fraction =>
    refine List.forall_mem_append.2 ⟨digits.isPathChar, List.forall_mem_cons.2 ⟨rfl, ?_⟩⟩
    exact fraction.isPathChar

theorem IsThrow.isPathChar {term : DiceTerm} (h : IsThrow s term) :
    ∀ c ∈ s, isPathChar c = true := by
  obtain @⟨a, f, k, c, count, keep, counted, letter, digits, -, -, kept⟩ := h
  have hcount : ∀ c ∈ a, Formula.isPathChar c = true := by
    cases counted with
    | single => simp
    | given digits => exact digits.isPathChar
  have hkeep : ∀ c ∈ k, Formula.isPathChar c = true := by
    cases kept with
    | all => simp
    | highest digits | lowest digits =>
      exact List.forall_mem_cons.2 ⟨rfl, List.forall_mem_cons.2 ⟨rfl, digits.isPathChar⟩⟩
  have hletter : Formula.isPathChar c = true := by obtain rfl | rfl := letter <;> rfl
  exact List.forall_mem_append.2 ⟨hcount, List.forall_mem_cons.2 ⟨hletter,
    List.forall_mem_append.2 ⟨digits.isPathChar, hkeep⟩⟩⟩

theorem name_isPathChar (builtin : Builtin) : ∀ c ∈ builtin.name.toList, isPathChar c = true := by
  refine List.all_eq_true.1 ?_
  cases builtin <;> rfl

theorem unparenthesized_symbol (op : BinaryOp) : Unparenthesized [op.symbol] := by
  cases op <;> decide

-- The characters of formulas that are no parentheses.
def isPlain (c : Char) : Bool :=
  isPathChar c || isGap c || ['+', '-', '*', '/', '%', '@', ','].contains c

-- What holds of texts of such characters, and is kept by putting texts together and by parentheses,
-- holds of all that is derived.
theorem Derives.text_induction {p : List Char → Prop}
    (plain : ∀ {s}, (∀ c ∈ s, isPlain c = true) → p s) (append : ∀ {s t}, p s → p t → p (s ++ t))
    (wrap : ∀ {s}, p s → p ('(' :: (s ++ [')']))) {level : Level} (h : Derives level w e) : p w := by
  have hgap : ∀ {g}, Gap g → p g := fun gap => plain fun c hc => by simp [isPlain, gap c hc]
  have hchars : ∀ {s}, (∀ c ∈ s, isPathChar c = true) → p s :=
    fun chars => plain fun c hc => by simp [isPlain, chars c hc]
  have hmark : ∀ {c s}, isPlain c = true → p s → p (c :: s) :=
    fun hc hs => append (s := [_]) (plain (by simpa using hc)) hs
  have hflat : ∀ {α : Type} {f : α → List Char} {xs : List α}, (∀ x ∈ xs, p (f x)) →
      p (xs.flatMap f) := by
    intro α f xs
    induction xs with
    | nil => exact fun _ => plain (by simp)
    | cons x xs ih =>
      intro hall
      rw [List.forall_mem_cons] at hall
      exact append hall.1 (ih hall.2)
  have hsymbol : ∀ op : BinaryOp, isPlain op.symbol = true := by
    intro op
    cases op <;> rfl
  induction h with
  | sum _ gaps _ _ head operands | term _ gaps _ _ head operands =>
    exact append head (hflat fun l hl =>
      append (hgap (gaps l hl)) (hmark (hsymbol l.op) (operands l hl)))
  | minus gap _ inner | plus gap _ inner => exact append (hgap gap) (hmark rfl inner)
  | bare _ inner => exact inner
  | number gap numeral => exact append (hgap gap) (hchars numeral.isPathChar)
  | dice gap throw => exact append (hgap gap) (hchars throw.isPathChar)
  | path gap _ chars => exact append (hgap gap) (hmark rfl (hchars chars))
  | @call g h k w builtin first others gap opening closing _ gaps _ head arguments =>
    have hothers : p (others.flatMap Further.text) :=
      hflat fun a ha => append (hgap (gaps a ha)) (hmark rfl (arguments a ha))
    have hwrap := wrap (append head (append hothers (hgap closing)))
    rw [List.append_assoc, List.append_assoc] at hwrap
    exact append (hgap gap) (append (hchars (name_isPathChar builtin)) (append (hgap opening) hwrap))
  | group gap closing _ inner =>
    have hwrap := wrap (append inner (hgap closing))
    rw [List.append_assoc] at hwrap
    exact append (hgap gap) hwrap

theorem Derives.balanced {level : Level} (h : Derives level w e) : Balanced w := by
  refine h.text_induction (fun hplain => ?_) Balanced.append Balanced.wrap
  refine Unparenthesized.balanced fun c hc => ⟨?_, ?_⟩
  · rintro rfl
    exact absurd (hplain _ hc) (by decide)
  · rintro rfl
    exact absurd (hplain _ hc) (by decide)

-- No reference is left in a formula.
theorem Derives.unmarked {level : Level} (h : Derives level w e) : '#' ∉ w := by
  refine h.text_induction (p := fun s => '#' ∉ s) (fun hplain hc => ?_) ?_ ?_
  · exact absurd (hplain _ hc) (by decide)
  · intro s t hs ht
    simp [hs, ht]
  · intro s hs
    simp [hs]

theorem Written.unmarked {text : String} (h : Written text e) : '#' ∉ text.toList := by
  obtain ⟨w, blanks, htext, hblanks, hderives⟩ := h
  rw [htext, List.mem_append, not_or]
  exact ⟨hderives.unmarked, fun hc => absurd (hblanks _ hc) (by decide)⟩

/-! Templates -/

-- A text with places left open.
abbrev Template := List (Option Char)

namespace Template

def fill (inner : List Char) (t : Template) : List Char :=
  t.flatMap fun
    | none => inner
    | some c => [c]

variable {inner : List Char} {τ : Template}

@[simp] theorem fill_nil : fill inner [] = [] := rfl

@[simp] theorem fill_none : fill inner (none :: τ) = inner ++ fill inner τ := rfl

@[simp] theorem fill_some {c : Char} : fill inner (some c :: τ) = c :: fill inner τ := rfl

@[simp] theorem fill_append {τ τ' : Template} : fill inner (τ ++ τ') = fill inner τ ++ fill inner τ' :=
  List.flatMap_append

@[simp] theorem fill_map_some : fill inner (s.map some) = s := by
  induction s with
  | nil => rfl
  | cons c s ih => rw [List.map_cons, fill_some, ih]

-- A text without parentheses has no place in it that is filled by parentheses.
theorem eq_map_some {s : List Char} (h : fill ('(' :: inner) τ = s) (hs : ∀ c ∈ s, c ≠ '(') :
    τ = s.map some := by
  subst h
  induction τ with
  | nil => rfl
  | cons p τ ih =>
    cases p with
    | none => exact absurd rfl (hs '(' (by simp))
    | some c =>
      rw [fill_some, List.forall_mem_cons] at hs
      rw [fill_some, List.map_cons, ← ih hs.2]

-- No balanced part ends within a place.
theorem fill_eq_append (hinner : Unparenthesized inner) {j : Nat}
    (h : fill ('(' :: (inner ++ [')'])) τ = u ++ v) (hu : depth j u = some 0) :
    ∃ τ₁ τ₂, τ = τ₁ ++ τ₂ ∧ fill ('(' :: (inner ++ [')'])) τ₁ = u ∧
      fill ('(' :: (inner ++ [')'])) τ₂ = v := by
  induction τ generalizing u j with
  | nil =>
    obtain ⟨rfl, rfl⟩ := List.append_eq_nil_iff.1 h.symm
    exact ⟨[], [], rfl, rfl, rfl⟩
  | cons p τ ih =>
    cases u with
    | nil => exact ⟨[], p :: τ, rfl, rfl, h⟩
    | cons c u =>
      cases p with
      | some c' =>
        rw [fill_some, List.cons_append, List.cons.injEq] at h
        obtain ⟨rfl, h⟩ := h
        rw [depth_cons, Option.bind_eq_some_iff] at hu
        obtain ⟨i, -, hu⟩ := hu
        obtain ⟨τ₁, τ₂, rfl, rfl, rfl⟩ := ih h hu
        exact ⟨some c' :: τ₁, τ₂, rfl, rfl, rfl⟩
      | none =>
        rw [fill_none, List.cons_append, List.cons_append, List.cons.injEq] at h
        obtain ⟨rfl, h⟩ := h
        have hopen : depth (j + 1) u = some 0 := hu
        obtain ⟨z, rfl, hz⟩ | ⟨z, hz, rfl⟩ := List.append_eq_append_iff.1 h
        · -- The place is passed as a whole.
          have hrest : depth j z = some 0 := by
            rwa [List.append_assoc, depth_append, hinner.balanced] at hopen
          obtain ⟨τ₁, τ₂, rfl, rfl, rfl⟩ := ih hz hrest
          exact ⟨none :: τ₁, τ₂, rfl, rfl, rfl⟩
        · obtain rfl | ⟨y, c, rfl⟩ := List.eq_nil_or_concat z
          · exact ⟨[none], τ, rfl, by simpa using hz, rfl⟩
          · -- Its parenthesis is still open.
            rw [List.concat_eq_append, ← List.append_assoc] at hz
            obtain ⟨rfl, -⟩ := List.append_inj' hz rfl
            have hbalanced := Unparenthesized.balanced (s := u) fun c hc =>
              hinner c (List.mem_append_left _ hc)
            rw [hbalanced] at hopen
            cases hopen

theorem fill_eq_cons {c : Char} (h : fill ('(' :: inner) τ = c :: s) (hc : c ≠ '(') :
    ∃ τ', τ = some c :: τ' ∧ fill ('(' :: inner) τ' = s := by
  cases τ with
  | nil => cases h
  | cons p τ =>
    cases p with
    | none => exact absurd (List.cons.inj h).1.symm hc
    | some c' =>
      obtain ⟨rfl, hs⟩ := List.cons.inj h
      exact ⟨τ, rfl, hs⟩

end Template

/-! What stands before a place -/

-- The last character that is no blank, by what it means for what comes next. A plus sign with no
-- operand before it is apart.
inductive Before where
  | opening
  | plus
  | name
  | operand
deriving DecidableEq

namespace Before

def after (before : Before) : Option Char → Before
  | none => .operand
  | some c =>
    if isGap c then before
    else if c = '+' then if before = .opening ∨ before = .plus then .plus else .opening
    else if c ∈ ['-', '*', '/', '%', '(', ','] then .opening
    else if isLetter c then .name
    else .operand

def afterAll (before : Before) (τ : Template) : Before := τ.foldl after before

-- No place follows a name, and with `signed` none follows a sign that is a plus.
def Admits (signed : Prop) : Before → Template → Prop
  | _, [] => True
  | before, p :: τ =>
    (p = none → before ≠ .name ∧ (signed → before ≠ .plus)) ∧ Admits signed (before.after p) τ

-- Whether an operand has ended.
def Closes (before : Before) : Prop := before = .name ∨ before = .operand

variable {signed : Prop} {before : Before} {τ τ' : Template} {c : Char}

instance decidableAdmits [Decidable signed] (before : Before) (τ : Template) :
    Decidable (Admits signed before τ) :=
  match τ with
  | [] => inferInstanceAs (Decidable True)
  | p :: τ =>
    have := decidableAdmits (before.after p) τ
    inferInstanceAs (Decidable ((p = none → before ≠ .name ∧ (signed → before ≠ .plus)) ∧ _))

theorem afterAll_append : before.afterAll (τ ++ τ') = (before.afterAll τ).afterAll τ' :=
  List.foldl_append

theorem afterAll_cons {p : Option Char} : before.afterAll (p :: τ) = (before.after p).afterAll τ := rfl

theorem admits_append : Admits signed before (τ ++ τ') ↔
    Admits signed before τ ∧ Admits signed (before.afterAll τ) τ' := by
  induction τ generalizing before with
  | nil => simp [Admits, afterAll]
  | cons p τ ih => simp only [List.cons_append, Admits, ih, afterAll, List.foldl_cons, and_assoc]

theorem afterAll_gap (h : Gap s) : before.afterAll (s.map some) = before := by
  induction s with
  | nil => rfl
  | cons c s ih =>
    rw [Gap, List.forall_mem_cons] at h
    rw [List.map_cons, afterAll, List.foldl_cons, after, if_pos h.1]
    exact ih h.2

-- Behind an operand all operators are binary.
theorem after_symbol (h : before.Closes) (op : BinaryOp) : before.after (some op.symbol) = .opening := by
  obtain rfl | rfl := h <;> cases op <;> rfl

theorem closes_after (h : isPathChar c = true) : (before.after (some c)).Closes := by
  have hgap : isGap c = false := by
    cases hc : isGap c with
    | false => rfl
    | true => exact absurd h (by simp [isPathChar_of_isGap hc])
  have hne : ∀ {c'}, isPathChar c' = false → c ≠ c' := by
    rintro c' hc' rfl
    simp [h] at hc'
  have hoperator : c ∉ ['-', '*', '/', '%', '(', ','] := by
    simp only [List.mem_cons, List.not_mem_nil, or_false, not_or]
    exact ⟨hne rfl, hne rfl, hne rfl, hne rfl, hne rfl, hne rfl⟩
  rw [after, hgap, if_neg Bool.false_ne_true, if_neg (hne rfl), if_neg hoperator]
  split
  · exact .inl rfl
  · exact .inr rfl

theorem closes_afterAll (hs : s ≠ []) (h : ∀ c ∈ s, isPathChar c = true) :
    (before.afterAll (s.map some)).Closes := by
  obtain rfl | ⟨t, c, rfl⟩ := List.eq_nil_or_concat s
  · exact absurd rfl hs
  · rw [List.concat_eq_append, List.map_append, afterAll_append]
    exact closes_after (h c (by simp))

theorem afterAll_name (builtin : Builtin) : before.afterAll (builtin.name.toList.map some) = .name := by
  cases builtin <;> rfl

end Before

end Tabletop.Formula
