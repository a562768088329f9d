import Tabletop.Proofs.Formula.Evaluation
import Tabletop.Proofs.Formula.Literals
import Tabletop.Proofs.Formula.Placeholder
import Tabletop.Proofs.Formula.Templates

-- A number put into a formula as it is shown stands for the same as the number in parentheses, but
-- behind the name of a function and, below zero, behind a plus that is a sign.
namespace Tabletop.Formula

open Tabletop.Text Template Before

-- A number as it is shown: an operand behind an operator, and behind any sign if it has none itself.
structure Insert (signed : Prop) (number : List Char) (e : Formula) : Prop where
  unparenthesized : Unparenthesized number
  sign : Derives .sign number e
  atom : ¬ signed → Derives .atom number e

-- What is derived with the number in parentheses, where an operand may start, is derived without
-- the parentheses.
def Keeps (signed : Prop) (number : List Char) (level : Level) (w : List Char) (e : Formula) : Prop :=
  ∀ {τ : Template}, fill ('(' :: (number ++ [')'])) τ = w → Admits signed .opening τ →
    Derives level (fill number τ) e ∧ (afterAll .opening τ).Closes

-- A number below zero has a sign and is no atom, but stays one behind a plus, where there is none.
def KeepsAtom (signed : Prop) (number w : List Char) (e : Formula) : Prop :=
  ∀ {τ : Template} {before : Before}, fill ('(' :: (number ++ [')'])) τ = w →
    before = .opening ∨ before = .plus → before.Admits signed τ →
      Derives .sign (fill number τ) e ∧ (before = .plus → Derives .atom (fill number τ) e) ∧
        (before.afterAll τ).Closes

variable {signed : Prop} {number g k s u v w : List Char} {e e' : Formula} {τ : Template}
  {before : Before}

/-! Parts of templates -/

theorem Insert.split (insert : Insert signed number e')
    (h : fill ('(' :: (number ++ [')'])) τ = u ++ v) (hu : Balanced u) :
    ∃ τ₁ τ₂, τ = τ₁ ++ τ₂ ∧ fill ('(' :: (number ++ [')'])) τ₁ = u ∧
      fill ('(' :: (number ++ [')'])) τ₂ = v :=
  fill_eq_append insert.unparenthesized h (hu 0)

theorem Insert.split_plain (insert : Insert signed number e')
    (h : fill ('(' :: (number ++ [')'])) τ = u ++ v) (hu : Unparenthesized u) :
    ∃ τ', τ = u.map some ++ τ' ∧ fill ('(' :: (number ++ [')'])) τ' = v := by
  obtain ⟨τ₁, τ₂, rfl, hfill, rfl⟩ := insert.split h hu.balanced
  exact ⟨τ₂, by rw [eq_map_some hfill fun c hc => (hu c hc).1], rfl⟩

/-! Operators -/

variable {level : Level} {links : List Link} {precedence : Nat}

-- Sums and terms grow by one operand after the other.
theorem keeps_links {D : List Char → Formula → Prop} (insert : Insert signed number e')
    (extend : ∀ {u : List Char} {acc : Formula} {l : Link}, D u acc → Gap l.gap →
      l.op.precedence = precedence → Derives level l.word l.formula →
        D (u ++ l.text) (.binary l.op acc l.formula))
    (gaps : ∀ l ∈ links, Gap l.gap) (ops : ∀ l ∈ links, l.op.precedence = precedence)
    (derived : ∀ l ∈ links, Derives level l.word l.formula)
    (operands : ∀ l ∈ links, Keeps signed number level l.word l.formula) :
    ∀ {acc : Formula} {u : List Char} {τ : Template} {before : Before},
      fill ('(' :: (number ++ [')'])) τ = links.flatMap Link.text → before.Closes →
      before.Admits signed τ → D u acc →
        D (u ++ fill number τ) (links.foldl Link.join acc) ∧ (before.afterAll τ).Closes := by
  induction links with
  | nil =>
    intro acc u τ before hfill hcloses _ hacc
    obtain rfl := eq_map_some hfill (by simp)
    simpa [afterAll] using ⟨hacc, hcloses⟩
  | cons l links ih =>
    intro acc u τ before hfill hcloses hadmits hacc
    simp only [List.forall_mem_cons] at gaps ops derived operands
    rw [List.flatMap_cons, Link.text, List.append_assoc, List.cons_append] at hfill
    obtain ⟨τ₁, rfl, hsymbol⟩ := insert.split_plain hfill gaps.1.unparenthesized
    obtain ⟨τ₂, rfl, hbehind⟩ :=
      fill_eq_cons hsymbol (unparenthesized_symbol l.op _ (List.mem_singleton.2 rfl)).1
    obtain ⟨σ, τ₃, rfl, hword, hrest⟩ := insert.split hbehind derived.1.balanced
    simp only [admits_append, afterAll_gap gaps.1, Admits, after_symbol hcloses] at hadmits
    obtain ⟨hoperand, hends⟩ := operands.1 hword hadmits.2.2.1
    have hextended := extend (l := ⟨l.gap, l.op, fill number σ, l.formula⟩) hacc gaps.1 ops.1 hoperand
    obtain ⟨hall, hclosed⟩ := ih gaps.2 ops.2 derived.2 operands.2 hrest hends hadmits.2.2.2 hextended
    simp only [afterAll_append, afterAll_gap gaps.1, afterAll_cons, after_symbol hcloses]
    exact ⟨by simpa [Link.text, Link.join] using hall, hclosed⟩

theorem keeps_chain {outer : Level} {first : Formula} (insert : Insert signed number e')
    (start : ∀ {w : List Char}, Derives level w first → Derives outer w first)
    (extend : ∀ {u : List Char} {acc : Formula} {l : Link}, Derives outer u acc → Gap l.gap →
      l.op.precedence = precedence → Derives level l.word l.formula →
        Derives outer (u ++ l.text) (.binary l.op acc l.formula))
    (derived : Derives level w first) (head : Keeps signed number level w first)
    (gaps : ∀ l ∈ links, Gap l.gap) (ops : ∀ l ∈ links, l.op.precedence = precedence)
    (each : ∀ l ∈ links, Derives level l.word l.formula)
    (operands : ∀ l ∈ links, Keeps signed number level l.word l.formula) :
    Keeps signed number outer (w ++ links.flatMap Link.text) (links.foldl Link.join first) := by
  intro τ hfill hadmits
  obtain ⟨τ₁, τ₂, rfl, hword, hlinks⟩ := insert.split hfill derived.balanced
  rw [admits_append] at hadmits
  obtain ⟨hhead, hcloses⟩ := head hword hadmits.1
  rw [fill_append, afterAll_append]
  exact keeps_links insert extend gaps ops each operands hlinks hcloses hadmits.2 (start hhead)

/-! Signs -/

theorem Keeps.minus (insert : Insert signed number e') (gap : Gap g)
    (inner : Keeps signed number .sign w e) : Keeps signed number .sign (g ++ '-' :: w) (.neg e) := by
  intro τ hfill hadmits
  obtain ⟨τ₁, rfl, hsign⟩ := insert.split_plain hfill gap.unparenthesized
  obtain ⟨τ₂, rfl, hword⟩ := fill_eq_cons hsign (by decide)
  simp only [admits_append, afterAll_gap gap, Admits] at hadmits
  obtain ⟨hinner, hcloses⟩ := inner hword hadmits.2.2
  rw [fill_append, fill_map_some, afterAll_append, afterAll_gap gap]
  exact ⟨.minus gap hinner, hcloses⟩

theorem Keeps.plus (insert : Insert signed number e') (gap : Gap g)
    (inner : KeepsAtom signed number w e) : Keeps signed number .sign (g ++ '+' :: w) e := by
  intro τ hfill hadmits
  obtain ⟨τ₁, rfl, hsign⟩ := insert.split_plain hfill gap.unparenthesized
  obtain ⟨τ₂, rfl, hword⟩ := fill_eq_cons hsign (by decide)
  simp only [admits_append, afterAll_gap gap, Admits] at hadmits
  obtain ⟨-, hinner, hcloses⟩ := inner hword (.inr rfl) hadmits.2.2
  rw [fill_append, fill_map_some, afterAll_append, afterAll_gap gap]
  exact ⟨.plus gap (hinner rfl), hcloses⟩

theorem KeepsAtom.bare (inner : KeepsAtom signed number w e) : Keeps signed number .sign w e := by
  intro τ hfill hadmits
  obtain ⟨hsign, -, hcloses⟩ := inner hfill (.inl rfl) hadmits
  exact ⟨hsign, hcloses⟩

/-! Atoms -/

-- No place is left open in a number, a throw or a path.
theorem KeepsAtom.plain (derived : Derives .atom (u ++ v) e) (hu : Unparenthesized u) (hv : v ≠ [])
    (chars : ∀ c ∈ v, isPathChar c = true) : KeepsAtom signed number (u ++ v) e := by
  intro τ before hfill _ _
  have hplain : ∀ c ∈ u ++ v, c ≠ '(' :=
    List.forall_mem_append.2 ⟨fun c hc => (hu c hc).1,
      fun c hc => (unparenthesized_of_isPathChar chars c hc).1⟩
  obtain rfl := eq_map_some hfill hplain
  rw [fill_map_some, List.map_append, afterAll_append]
  exact ⟨derived.bare, fun _ => derived, closes_afterAll hv chars⟩

-- The parentheses of a place hold nothing but the number.
theorem Insert.eq_of_hole (insert : Insert signed number e') (derived : Derives .sum w e) (closing : Gap k)
    (h : number ++ ')' :: fill ('(' :: (number ++ [')'])) τ = w ++ (k ++ [')'])) :
    τ = [] ∧ e = e' := by
  have hbalanced : Balanced (w ++ k) := derived.balanced.append closing.unparenthesized.balanced
  have hends : w ++ k = number ∧ fill ('(' :: (number ++ [')'])) τ = [] := by
    rw [← List.append_assoc] at h
    obtain ⟨z, hz, hrest⟩ | ⟨z, hz, hrest⟩ := List.append_eq_append_iff.1 h
    · cases z with
      | nil => exact ⟨by simpa using hz, by simpa using hrest⟩
      | cons c z =>
        -- The parenthesis behind the number would close one that is not open.
        obtain ⟨rfl, -⟩ := List.cons.inj hrest
        have hdepth := hbalanced 0
        rw [hz, depth_append, insert.unparenthesized.balanced] at hdepth
        cases hdepth
    · have hlength := congrArg List.length hrest
      simp only [List.length_append, List.length_cons, List.length_nil] at hlength
      obtain rfl : z = [] := List.eq_nil_of_length_eq_zero (by omega)
      exact ⟨by simpa using hz.symm, List.eq_nil_of_length_eq_zero (by omega)⟩
  obtain ⟨rfl, hempty⟩ := hends
  have hwritten : Written (String.ofList (w ++ k)) e :=
    ⟨w, k, by simp, fun c hc => isBlank_of_isGap (closing c hc), derived⟩
  have hwritten' : Written (String.ofList (w ++ k)) e' :=
    ⟨w ++ k, [], by simp, by simp, insert.sign.of_sign.of_term⟩
  exact ⟨eq_map_some hempty (by simp), hwritten.unique hwritten'⟩

-- What closes a group or a call has no place in it, and ends an operand.
theorem closing_of_fill (closing : Gap k) (h : fill ('(' :: (number ++ [')'])) τ = k ++ [')']) :
    fill number τ = k ++ [')'] ∧ ∀ before : Before, (before.afterAll τ).Closes := by
  obtain rfl := eq_map_some h <| List.forall_mem_append.2
    ⟨fun c hc => (closing.unparenthesized c hc).1, by simp⟩
  refine ⟨fill_map_some, fun before => ?_⟩
  rw [List.map_append, afterAll_append]
  exact .inr rfl

theorem KeepsAtom.group (insert : Insert signed number e') (gap : Gap g) (closing : Gap k)
    (derived : Derives .sum w e) (inner : Keeps signed number .sum w e) :
    KeepsAtom signed number (g ++ '(' :: (w ++ (k ++ [')']))) e := by
  intro τ before hfill hbefore hadmits
  obtain ⟨τ₁, rfl, hopen⟩ := insert.split_plain hfill gap.unparenthesized
  simp only [admits_append, afterAll_gap gap] at hadmits
  simp only [fill_append, fill_map_some, afterAll_append, afterAll_gap gap]
  cases τ₁ with
  | nil => cases hopen
  | cons p τ₂ =>
    rw [Admits] at hadmits
    cases p with
    | none =>
      rw [fill_none, List.cons_append, List.append_assoc] at hopen
      obtain ⟨rfl, rfl⟩ := insert.eq_of_hole derived closing (List.cons.inj hopen).2
      rw [fill_none, fill_nil, List.append_nil]
      refine ⟨insert.sign.gap_append gap, fun hplus => ?_, .inr rfl⟩
      exact (insert.atom fun hsigned => (hadmits.2.1 rfl).2 hsigned hplus).gap_append gap
    | some c =>
      obtain ⟨rfl, hbehind⟩ := List.cons.inj hopen
      obtain ⟨σ, τ₃, rfl, hword, hclosing⟩ := insert.split hbehind derived.balanced
      rw [admits_append] at hadmits
      obtain ⟨hinner, -⟩ := inner hword hadmits.2.2.1
      have hgroup := Derives.group gap closing hinner
      rw [← (closing_of_fill closing hclosing).1, ← fill_append] at hgroup
      refine ⟨hgroup.bare, fun _ => hgroup, ?_⟩
      rw [afterAll_cons, afterAll_append]
      exact (closing_of_fill closing hclosing).2 _

/-! Calls -/

variable {others : List Further}

theorem balanced_arguments (gaps : ∀ a ∈ others, Gap a.gap)
    (each : ∀ a ∈ others, Derives .sum a.word a.formula) :
    Balanced (others.flatMap Further.text) := by
  induction others with
  | nil => exact fun _ => rfl
  | cons a others ih =>
    simp only [List.forall_mem_cons] at gaps each
    exact (gaps.1.unparenthesized.balanced.append
      ((show Unparenthesized [','] by decide).balanced.append each.1.balanced)).append
        (ih gaps.2 each.2)

theorem keeps_arguments (insert : Insert signed number e') (gaps : ∀ a ∈ others, Gap a.gap)
    (derived : ∀ a ∈ others, Derives .sum a.word a.formula)
    (arguments : ∀ a ∈ others, Keeps signed number .sum a.word a.formula) :
    ∀ {τ : Template} {before : Before}, fill ('(' :: (number ++ [')'])) τ = others.flatMap Further.text →
      before.Admits signed τ → ∃ others' : List Further, fill number τ = others'.flatMap Further.text ∧
        others'.map Further.formula = others.map Further.formula ∧ (∀ a ∈ others', Gap a.gap) ∧
          ∀ a ∈ others', Derives .sum a.word a.formula := by
  induction others with
  | nil =>
    intro τ before hfill _
    obtain rfl := eq_map_some hfill (by simp)
    exact ⟨[], rfl, rfl, by simp, by simp⟩
  | cons a others ih =>
    intro τ before hfill hadmits
    simp only [List.forall_mem_cons] at gaps derived arguments
    rw [List.flatMap_cons, Further.text, List.append_assoc, List.cons_append] at hfill
    obtain ⟨τ₁, rfl, hcomma⟩ := insert.split_plain hfill gaps.1.unparenthesized
    obtain ⟨τ₂, rfl, hbehind⟩ := fill_eq_cons hcomma (by decide)
    obtain ⟨σ, τ₃, rfl, hword, hrest⟩ := insert.split hbehind derived.1.balanced
    simp only [admits_append, Admits] at hadmits
    obtain ⟨hargument, -⟩ := arguments.1 hword hadmits.2.2.1
    obtain ⟨others', hothers, hformulas, hgaps, hderived⟩ :=
      ih gaps.2 derived.2 arguments.2 hrest hadmits.2.2.2
    refine ⟨⟨a.gap, fill number σ, a.formula⟩ :: others', ?_, ?_, ?_, ?_⟩
    · simp [Further.text, ← hothers]
    · rw [List.map_cons, List.map_cons, hformulas]
    · exact List.forall_mem_cons.2 ⟨gaps.1, hgaps⟩
    · exact List.forall_mem_cons.2 ⟨hargument, hderived⟩

theorem KeepsAtom.call {h : List Char} {builtin : Builtin} {first : Formula}
    (insert : Insert signed number e') (gap : Gap g) (opening : Gap h) (closing : Gap k)
    (derived : Derives .sum w first) (head : Keeps signed number .sum w first)
    (gaps : ∀ a ∈ others, Gap a.gap) (each : ∀ a ∈ others, Derives .sum a.word a.formula)
    (arguments : ∀ a ∈ others, Keeps signed number .sum a.word a.formula) :
    KeepsAtom signed number
      (g ++ (builtin.name.toList ++ (h ++ '(' :: (w ++ (others.flatMap Further.text ++
        (k ++ [')']))))))
      (.call builtin (first :: others.map Further.formula)) := by
  intro τ before hfill _ hadmits
  obtain ⟨τ₁, rfl, hname⟩ := insert.split_plain hfill gap.unparenthesized
  obtain ⟨τ₂, rfl, hgap⟩ := insert.split_plain hname (unparenthesized_of_isPathChar (name_isPathChar builtin))
  obtain ⟨τ₃, rfl, hopen⟩ := insert.split_plain hgap opening.unparenthesized
  simp only [admits_append, afterAll_gap gap, afterAll_name, afterAll_gap opening] at hadmits
  simp only [fill_append, fill_map_some, afterAll_append, afterAll_gap gap, afterAll_name,
    afterAll_gap opening]
  cases τ₃ with
  | nil => cases hopen
  | cons p τ₄ =>
    rw [Admits] at hadmits
    cases p with
    | none => exact absurd rfl (hadmits.2.2.2.1 rfl).1
    | some c =>
      obtain ⟨rfl, hbehind⟩ := List.cons.inj hopen
      obtain ⟨σ, τ₅, rfl, hword, hrest⟩ := insert.split hbehind derived.balanced
      obtain ⟨ρ, τ₆, rfl, hothers, hclosing⟩ :=
        insert.split hrest (balanced_arguments gaps each)
      simp only [admits_append] at hadmits
      obtain ⟨hhead, -⟩ := head hword hadmits.2.2.2.2.1
      obtain ⟨others', hfilled, hformulas, hgaps, hderived⟩ :=
        keeps_arguments insert gaps each arguments hothers hadmits.2.2.2.2.2.1
      have hcall := @Derives.call g h k _ builtin _ _ gap opening closing hhead hgaps hderived
      rw [← (closing_of_fill closing hclosing).1, ← hfilled, hformulas,
        ← fill_append, ← fill_append] at hcall
      refine ⟨hcall.bare, fun _ => hcall, ?_⟩
      rw [afterAll_cons, afterAll_append, afterAll_append]
      exact (closing_of_fill closing hclosing).2 _

/-! Whole texts -/

def KeepsAt (signed : Prop) (number : List Char) : Level → List Char → Formula → Prop
  | .atom, w, e => KeepsAtom signed number w e
  | level, w, e => Keeps signed number level w e

theorem IsNumeral.ne_nil {x : Binary64} (h : IsNumeral w x) : w ≠ [] := by
  obtain ⟨c, v, rfl, -⟩ := h.head
  exact List.cons_ne_nil c v

theorem IsThrow.ne_nil {term : DiceTerm} (h : IsThrow w term) : w ≠ [] := by
  obtain ⟨c, v, rfl, -⟩ := h.head
  exact List.cons_ne_nil c v

theorem Derives.keeps (insert : Insert signed number e') (h : Derives level w e) :
    KeepsAt signed number level w e := by
  induction h with
  | sum derived gaps ops each head operands =>
    exact keeps_chain insert Derives.of_term (fun hacc gap op operand => hacc.sum_append gap op operand)
      derived head gaps ops each operands
  | term derived gaps ops each head operands =>
    exact keeps_chain insert Derives.of_sign (fun hacc gap op operand => hacc.term_append gap op operand)
      derived head gaps ops each operands
  | minus gap _ inner => exact Keeps.minus insert gap inner
  | plus gap _ inner => exact Keeps.plus insert gap inner
  | bare _ inner => exact KeepsAtom.bare inner
  | number gap numeral =>
    exact KeepsAtom.plain (.number gap numeral) gap.unparenthesized numeral.ne_nil numeral.isPathChar
  | dice gap throw =>
    exact KeepsAtom.plain (.dice gap throw) gap.unparenthesized throw.ne_nil throw.isPathChar
  | @path g w gap some_char chars =>
    have hpath := Derives.path gap some_char chars
    rw [List.append_cons] at hpath ⊢
    have hopening : Unparenthesized (g ++ ['@']) :=
      List.forall_mem_append.2 ⟨gap.unparenthesized, by simp⟩
    change KeepsAtom signed number _ _
    exact KeepsAtom.plain hpath hopening some_char chars
  | call gap opening closing derived gaps each head arguments =>
    exact KeepsAtom.call insert gap opening closing derived head gaps each arguments
  | group gap closing derived inner => exact KeepsAtom.group insert gap closing derived inner

theorem keeps_written (insert : Insert signed number e') {text : String}
    (htext : text.toList = fill ('(' :: (number ++ [')'])) τ) (h : Written text e)
    (hadmits : Admits signed .opening τ) : Written (String.ofList (fill number τ)) e := by
  obtain ⟨w, blanks, hsplit, hblanks, hderives⟩ := h
  obtain ⟨τ₁, τ₂, rfl, hword, hrest⟩ := insert.split (htext.symm.trans hsplit) hderives.balanced
  have hplain : ∀ c ∈ blanks, c ≠ '(' := by
    rintro c hc rfl
    exact absurd (hblanks _ hc) (by decide)
  obtain rfl := eq_map_some hrest hplain
  have hkept : Keeps signed number .sum w e := hderives.keeps insert
  rw [admits_append] at hadmits
  refine ⟨fill number τ₁, blanks, ?_, hblanks, (hkept hword hadmits.1).1⟩
  rw [String.toList_ofList, fill_append, fill_map_some]

/-! Numbers in place of references -/

theorem lt_zero_of_negative {u : Nat} (h : Units.Representable u) (hu : u ≠ 0) :
    Binary64.finite true u h < 0 := by
  refine (Binary64.less_iff_rank rfl Binary64.rank_zero).2 ?_
  simp only [Binary64.signed, if_true]
  omega

theorem Insert.of_numeral {x : Binary64} (h : IsNumeral s x) : Insert signed s (.number x) := by
  have hatom : Derives .atom s (.number x) := .number (g := []) gap_nil h
  exact ⟨unparenthesized_of_isPathChar h.isPathChar, hatom.bare, fun _ => hatom⟩

theorem Insert.of_negative {x : Binary64} (h : IsNumeral s x) (hsigned : signed) :
    Insert signed ('-' :: s) (.neg (.number x)) := by
  have hatom : Derives .atom s (.number x) := .number (g := []) gap_nil h
  refine ⟨?_, .minus (g := []) gap_nil hatom.bare, fun hnot => absurd hsigned hnot⟩
  exact List.forall_mem_cons.2 ⟨by decide, unparenthesized_of_isPathChar h.isPathChar⟩

theorem exists_insert {y : Binary64} (finite : y.isFinite = true) :
    ∃ e, Insert (y < 0) y.format.toList e := by
  cases y with
  | infinite | nan => cases finite
  | finite s u hu =>
    have hnumeral := numeral_format hu
    cases s with
    | false => exact ⟨_, .of_numeral hnumeral⟩
    | true =>
      by_cases hzero : u = 0
      · subst hzero
        rw [Binary64.format_zero] at hnumeral ⊢
        exact ⟨_, .of_numeral hnumeral⟩
      · rw [format_negative hu hzero, String.toList_append]
        exact ⟨_, .of_negative hnumeral (lt_zero_of_negative hu hzero)⟩

-- A text with its references to one name as places left open.
def template (x text : String) : Template :=
  (Placeholder.pieces text).flatMap fun
    | .plain c => [some c]
    | .reference id => if id = x.toList then [none] else some '#' :: id.map some

-- The text with something in place of the references to one name.
def splice (text x inner : String) : String := String.ofList (fill inner.toList (template x text))

variable {text operation x : String} {values : String → Option Json}

theorem references_of_unmarked {inner : String} (h : '#' ∉ (splice text x inner).toList)
    {id : List Char} (hid : .reference id ∈ Placeholder.pieces text) : id = x.toList := by
  by_contra hne
  refine h ?_
  rw [splice, String.toList_ofList]
  refine List.mem_flatMap.2 ⟨some '#', List.mem_flatMap.2 ⟨_, hid, ?_⟩, by simp⟩
  simp [hne]

theorem substitute_eq_splice {inner form : String} (h : '#' ∉ (splice text x inner).toList)
    (hform : Placeholder.resolve? values x = some form) :
    Placeholder.substitute text operation values = .ok (splice text x form) := by
  have hpieces : ∀ id, .reference id ∈ Placeholder.pieces text → id = x.toList :=
    fun id => references_of_unmarked h
  rw [Placeholder.substitute_eq_ok fun _ => form]
  · congr 1
    rw [splice, template, ← String.toList_inj, String.toList_join, String.toList_ofList, fill,
      List.flatMap_map, List.flatMap_assoc]
    refine List.flatMap_congr fun p hp => ?_
    cases p with
    | plain c => simp [Placeholder.Piece.text]
    | reference id => simp [Placeholder.Piece.text, hpieces id hp]
  · intro id hid
    rw [hpieces id hid, String.ofList_toList]
    exact hform

theorem fill_eq_of_unopened (inner : List Char) (h : ∀ c ∈ fill ('(' :: s) τ, c ≠ '(') :
    fill inner τ = fill ('(' :: s) τ := by
  have hplain := eq_map_some rfl h
  rw [hplain, fill_map_some, fill_map_some]

theorem toList_wrapped (form : String) : ("(" ++ form ++ ")").toList = '(' :: (form.toList ++ [')']) := by
  simp

-- An evaluation with the number in parentheses goes as one without them.
theorem evaluate_inserted {form : String} {data : RollData} {dice dice' : Dice} {result : Evaluation}
    (insert : Insert signed form.toList e') (admits : Admits signed .opening (template x text))
    (h : (evaluate (splice text x ("(" ++ form ++ ")")) data).run dice = (.ok result, dice')) :
    '#' ∉ (splice text x ("(" ++ form ++ ")")).toList ∧
      (evaluate (splice text x form) data).run dice = (.ok result, dice') := by
  have htext : (splice text x ("(" ++ form ++ ")")).toList =
      fill ('(' :: (form.toList ++ [')'])) (template x text) := by
    rw [splice, toList_wrapped, String.toList_ofList]
  obtain ⟨hblank, -, -⟩ | ⟨e, hparse, heval⟩ := evaluate_eq_ok h
  · -- A blank text has no place for a number.
    have hchars : ∀ c ∈ fill ('(' :: (form.toList ++ [')'])) (template x text), isBlank c = true := by
      rw [← htext]
      exact List.all_eq_true.1 hblank
    have hsame := fill_eq_of_unopened form.toList fun c hc => by
      rintro rfl
      exact absurd (hchars _ hc) (by decide)
    refine ⟨fun hmark => absurd (hchars '#' (htext ▸ hmark)) (by decide), ?_⟩
    rw [splice, hsame, ← htext, String.ofList_toList]
    exact h
  · have hwritten := written_of_parse hparse
    refine ⟨hwritten.unmarked, ?_⟩
    have hkept : Written (splice text x form) e := keeps_written insert htext hwritten admits
    rw [run_evaluate hkept.parse, heval]

-- The number that a reference stands for may as well be written in its place in parentheses, if no
-- such reference is the argument list of a function and none to a number below zero has a plus for
-- its sign.
theorem evaluate_spliced {v : Json} {y : Binary64} {data : RollData} {dice dice' : Dice}
    {result : Evaluation} (name : Placeholder.isName x = true) (recorded : values x = some v)
    (number : v = .float y ∨ ∃ n, v = .int n ∧ y = Binary64.ofInt n) (finite : y.isFinite = true)
    (admits : Admits (y < 0) .opening (template x text))
    (h : (evaluate (splice text x ("(" ++ y.format ++ ")")) data).run dice = (.ok result, dice')) :
    ∃ s, Placeholder.substitute text operation values = .ok s ∧
      (evaluate s data).run dice = (.ok result, dice') := by
  have hform : Placeholder.resolve? values x = some y.format := by
    rw [Placeholder.resolve?, if_pos name, recorded]
    obtain rfl | ⟨n, rfl, hy⟩ := number
    · rfl
    · rw [hy]
      rfl
  obtain ⟨e, insert⟩ := exists_insert finite
  obtain ⟨hunmarked, heval⟩ := evaluate_inserted insert admits h
  exact ⟨_, substitute_eq_splice hunmarked hform, heval⟩

theorem evaluate_spliced_debt :
    ((evaluate (splice "2 * #x - -#x + max (#x, 1)" "x" "(-3)") Dict.empty).run .highest).1 =
        .ok ⟨-8, "2 * -3 - --3 + max(-3, 1)"⟩ ∧
      ∃ s, Placeholder.substitute "2 * #x - -#x + max (#x, 1)" "op" (fun _ => some (.int (-3))) =
          .ok s ∧
        ((evaluate s Dict.empty).run .highest).1 = .ok ⟨-8, "2 * -3 - --3 + max(-3, 1)"⟩ := by
  have hresult : ((evaluate (splice "2 * #x - -#x + max (#x, 1)" "x" "(-3)") Dict.empty).run
      .highest).1 = .ok ⟨-8, "2 * -3 - --3 + max(-3, 1)"⟩ := by decide +kernel
  have hform : "(" ++ (Binary64.ofInt (-3)).format ++ ")" = "(-3)" := by decide +kernel
  have hrun := run_eq_of_fst hresult
  rw [← hform] at hrun
  have hspliced : ∃ s, Placeholder.substitute "2 * #x - -#x + max (#x, 1)" "op"
      (fun _ => some (.int (-3))) = .ok s ∧ (evaluate s Dict.empty).run .highest = _ :=
    evaluate_spliced (by decide) rfl (.inr ⟨-3, rfl, rfl⟩) (by decide +kernel) (by decide +kernel) hrun
  obtain ⟨s, hsubstitute, heval⟩ := hspliced
  exact ⟨hresult, s, hsubstitute, congrArg Prod.fst heval⟩

theorem not_of_refused {spliced written : String} {values : String → Option Json} {s : String}
    (hspliced : ((evaluate spliced Dict.empty).run .highest).1.isOk = true)
    (hsubstitute : Placeholder.substitute written "op" values = .ok s)
    (hrefused : ((evaluate s Dict.empty).run .highest).1.isOk = false) :
    ¬ ∀ (result : Evaluation) (dice' : Dice),
      (evaluate spliced Dict.empty).run .highest = (.ok result, dice') →
        ∃ s result', Placeholder.substitute written "op" values = .ok s ∧
          (evaluate s Dict.empty).run .highest = (.ok result', dice') ∧
            result'.total = result.total := by
  intro hall
  cases hresult : ((evaluate spliced Dict.empty).run .highest).1 with
  | error failure =>
    rw [hresult] at hspliced
    cases hspliced
  | ok result =>
    obtain ⟨s', result', hs, heval, -⟩ := hall _ _ (run_eq_of_fst hresult)
    obtain rfl := Except.ok.inj (hsubstitute.symm.trans hs)
    rw [heval] at hrefused
    cases hrefused

-- Behind the name of a function the parentheses are those of its arguments, and no sign follows a
-- plus sign.
theorem not_evaluate_spliced_bare :
    (¬ ∀ (result : Evaluation) (dice' : Dice),
      (evaluate (splice "floor#x" "x" ("(" ++ (Binary64.ofInt 3).format ++ ")")) Dict.empty).run
          .highest = (.ok result, dice') →
        ∃ s result', Placeholder.substitute "floor#x" "op" (fun _ => some (.int 3)) = .ok s ∧
          (evaluate s Dict.empty).run .highest = (.ok result', dice') ∧
            result'.total = result.total) ∧
    ¬ ∀ (result : Evaluation) (dice' : Dice),
      (evaluate (splice "5 + +#x" "x" ("(" ++ (Binary64.ofInt (-3)).format ++ ")")) Dict.empty).run
          .highest = (.ok result, dice') →
        ∃ s result', Placeholder.substitute "5 + +#x" "op" (fun _ => some (.int (-3))) = .ok s ∧
          (evaluate s Dict.empty).run .highest = (.ok result', dice') ∧
            result'.total = result.total := by
  constructor
  · exact not_of_refused (s := "floor3") (by decide +kernel) (by decide +kernel) (by decide +kernel)
  · exact not_of_refused (s := "5 + +-3") (by decide +kernel) (by decide +kernel) (by decide +kernel)

end Tabletop.Formula
