import Tabletop.Proofs.Formula.Soundness
import Tabletop.Proofs.Text.Runs

-- What the grammar derives is read, whatever follows that is no part of it, and read as nothing
-- else. The steps that the reader starts with are enough for every text.
namespace Tabletop.Formula

open Tabletop.Text

variable {g s t w : List Char} {e : Formula} {n : Nat} {c : Char}

-- Whether no number, throw, path or name can go on with these characters.
def Stops (t : List Char) : Prop := ∀ c ∈ t.head?, isPathChar c = false

-- Whether no operator of this precedence or a higher one comes next.
def Ends (precedence : Nat) (t : List Char) : Prop :=
  ∀ c ∈ (skipGaps t).head?, ∀ op : BinaryOp, precedence ≤ op.precedence → c ≠ op.symbol

/-! Characters -/

theorem isPathChar_of_isDigit (h : isDigit c = true) : isPathChar c = true := by
  simp [isPathChar, h]

theorem isDigit_eq_false (h : isPathChar c = false) : isDigit c = false := by
  simp only [isPathChar, Bool.or_eq_false_iff] at h
  exact h.1.1.2

theorem forall_head_cons {p : Char → Prop} (h : p c) (t : List Char) :
    ∀ c' ∈ (c :: t).head?, p c' := by
  simpa using h

theorem stops_cons (h : isPathChar c = false) (t : List Char) : Stops (c :: t) :=
  forall_head_cons h t

theorem isPathChar_of_isGap (h : isGap c = true) : isPathChar c = false := by
  simp only [isGap, Bool.or_eq_true, decide_eq_true_eq] at h
  obtain ((rfl | rfl) | rfl) | rfl := h <;> decide

theorem Gap.stops (h : Gap g) (ht : Stops t) : Stops (g ++ t) := by
  cases g with
  | nil => exact ht
  | cons c g => exact stops_cons (isPathChar_of_isGap (h c List.mem_cons_self)) _

theorem isPathChar_symbol (op : BinaryOp) : isPathChar op.symbol = false := by
  cases op <;> decide

theorem isGap_symbol (op : BinaryOp) : isGap op.symbol = false := by
  cases op <;> decide

-- What starts one of these forms starts no other.
theorem name_head (builtin : Builtin) : ∃ c name, builtin.name.toList = c :: name ∧
    isGap c = false ∧ isDigit c = false ∧ (c ≠ 'd' ∧ c ≠ 'D') ∧ c ≠ '@' := by
  cases builtin <;> exact ⟨_, _, rfl, by decide⟩

theorem Digits.exists_cons (h : Digits w) : ∃ c v, w = c :: v ∧ isDigit c = true := by
  cases w with
  | nil => exact absurd rfl h.1
  | cons c v => exact ⟨c, v, rfl, h.2 c List.mem_cons_self⟩

theorem ne_of_isDigit {c' : Char} (h : isDigit c = true) (h' : isDigit c' = false) : c ≠ c' := by
  rintro rfl
  simp [h] at h'

/-! Runs of digits -/

theorem Digits.natural? (h : Digits w) (hfits : ofDigits w ≤ maxNatural)
    (ht : ∀ c ∈ t.head?, isDigit c = false) :
    Formula.natural? (w ++ t) = some (ofDigits w, t) := by
  simp only [Formula.natural?, Binary64.digitRun, takeWhile_run h.2 ht, dropWhile_run h.2 ht]
  rw [if_neg (by simp [h.1, Nat.not_lt.2 hfits])]

theorem natural?_of_head (h : ∀ c ∈ s.head?, isDigit c = false) : natural? s = none := by
  cases s with
  | nil => rfl
  | cons c s => simp [natural?, Binary64.digitRun, h c rfl]

-- No throw starts where no die follows the digits.
theorem diceForm_of_head (h : ∀ c ∈ ((natural? s).getD (1, s)).2.head?, c ≠ 'd' ∧ c ≠ 'D') :
    diceForm s = .missed s [] := by
  simp only [diceForm]
  generalize (natural? s).getD (1, s) = counted at h
  obtain ⟨count, rest⟩ := counted
  cases rest with
  | nil => rfl
  | cons c rest => simp [h c rfl]

theorem keep_of_stops (h : Stops t) : keep t = .done none t := by
  have hk : t.head? ≠ some 'k' := fun hk => absurd (h 'k' hk) (by decide)
  simp only [keep]
  split <;> first | exact absurd rfl hk | rfl

theorem IsKeep.complete {k : Option Keep} (h : IsKeep w k) (ht : Stops t) :
    keep (w ++ t) = .done k t := by
  have hdigit : ∀ c ∈ t.head?, isDigit c = false := fun c hc => isDigit_eq_false (ht c hc)
  cases h with
  | all => exact keep_of_stops ht
  | highest digits fits => simp [keep, digits.natural? fits hdigit]
  | lowest digits fits => simp [keep, digits.natural? fits hdigit]

theorem IsKeep.head {k : Option Keep} (h : IsKeep w k) (ht : Stops t) :
    ∀ c ∈ (w ++ t).head?, isDigit c = false := by
  cases h with
  | all => exact fun c hc => isDigit_eq_false (ht c hc)
  | highest | lowest => exact forall_head_cons (by decide) _

theorem IsCount.complete {count : Nat} (h : IsCount w count) (hc : isDigit c = false) :
    (natural? (w ++ c :: t)).getD (1, w ++ c :: t) = (count, c :: t) := by
  have hhead : ∀ c' ∈ (c :: t).head?, isDigit c' = false := forall_head_cons hc t
  cases h with
  | single => rw [List.nil_append, natural?_of_head hhead, Option.getD_none]
  | given digits few =>
    have hfits : ofDigits w ≤ maxNatural := Nat.le_trans few (by decide)
    rw [digits.natural? hfits hhead, Option.getD_some]

theorem IsThrow.complete {term : DiceTerm} (h : IsThrow w term) (ht : Stops t) :
    diceForm (w ++ t) = .done (.dice term) t := by
  cases h with
  | @intro a f k c count keep counted letter digits some_face few kept =>
    have hdigit : isDigit c = false := by obtain rfl | rfl := letter <;> decide
    have hfits : ofDigits f ≤ maxNatural := Nat.le_trans few (by decide)
    have hcount : count ≤ maxDice := by
      cases counted with
      | single => decide
      | given digits few => exact few
    have htext : a ++ c :: (f ++ k) ++ t = a ++ c :: (f ++ (k ++ t)) := by simp
    simp only [diceForm, htext, counted.complete hdigit, digits.natural? hfits (kept.head ht),
      kept.complete ht, Reply.andThen]
    rw [if_pos (by simpa using letter), if_neg (by omega), if_neg (by omega), if_neg (by omega)]

theorem diceForm_of_digits (h : Digits w) (ht : ∀ c ∈ t.head?, isDigit c = false)
    (ht' : ∀ c ∈ t.head?, c ≠ 'd' ∧ c ≠ 'D') : diceForm (w ++ t) = .missed (w ++ t) [] := by
  refine diceForm_of_head fun c hc => ?_
  by_cases hfits : ofDigits w ≤ maxNatural
  · rw [h.natural? hfits ht] at hc
    exact ht' c hc
  · -- A count that is too large is none.
    have hnone : natural? (w ++ t) = none := by
      simp only [natural?, Binary64.digitRun, takeWhile_run h.2 ht]
      rw [if_pos (by simp; omega)]
    obtain ⟨c', v, rfl, hdigit⟩ := h.exists_cons
    rw [hnone] at hc
    obtain rfl : c' = c := by simpa using hc
    exact ⟨ne_of_isDigit hdigit (by decide), ne_of_isDigit hdigit (by decide)⟩

theorem IsNumeral.complete {x : Binary64} (h : IsNumeral w x) (ht : Stops t) :
    diceForm (w ++ t) = .missed (w ++ t) [] ∧ numberForm (w ++ t) = .done (.number x) t := by
  have hdigit : ∀ c ∈ t.head?, isDigit c = false := fun c hc => isDigit_eq_false (ht c hc)
  cases h with
  | whole digits =>
    refine ⟨diceForm_of_digits digits hdigit fun c hc => ?_, ?_⟩
    · have hc := ht c hc
      constructor <;> rintro rfl <;> exact absurd hc (by decide)
    · simp only [numberForm, Binary64.digitRun, takeWhile_run digits.2 hdigit,
        dropWhile_run digits.2 hdigit]
      rw [if_neg (by simpa using digits.1)]
      split
      · exact absurd (ht '.' rfl) (by decide)
      · rfl
  | @point w f digits fraction =>
    have hpoint : ∀ c ∈ ('.' :: (f ++ t)).head?, isDigit c = false :=
      forall_head_cons (by decide) _
    rw [List.append_assoc, List.cons_append]
    refine ⟨diceForm_of_digits digits hpoint (forall_head_cons (by decide) _), ?_⟩
    simp only [numberForm, Binary64.digitRun, takeWhile_run digits.2 hpoint,
      dropWhile_run digits.2 hpoint, takeWhile_run fraction.2 hdigit, dropWhile_run fraction.2 hdigit]
    rw [if_neg (by simpa using digits.1), if_neg (by simpa using fraction.1)]

/-! Forms of atoms -/

theorem skipGaps_gap (h : Gap g) (hs : ∀ c ∈ s.head?, isGap c = false) :
    skipGaps (g ++ s) = s := by
  rw [skipGaps_append h]
  cases s with
  | nil => rfl
  | cons c s => exact skipGaps_cons (hs c rfl) s

theorem numberForm_of_head (h : ∀ c ∈ s.head?, isDigit c = false) :
    numberForm s = .missed s [] := by
  cases s with
  | nil => rfl
  | cons c s => simp [numberForm, Binary64.digitRun, h c rfl]

theorem pathForm_of_head (h : ∀ c ∈ s.head?, c ≠ '@') : pathForm s = .missed s [] := by
  unfold pathForm
  split
  · exact absurd rfl (h '@' rfl)
  · rfl

theorem pathForm_complete (hw : w ≠ []) (hchars : ∀ c ∈ w, isPathChar c = true) (ht : Stops t) :
    pathForm ('@' :: (w ++ t)) = .done (.path (pathName w)) t := by
  simp only [pathForm, takeWhile_run hchars ht, dropWhile_run hchars ht]
  rw [if_neg (by simpa using hw)]
  rfl

-- Neither a throw nor a number starts with this character.
theorem forms_of_head (hdigit : isDigit c = false) (hd : c ≠ 'd' ∧ c ≠ 'D') (s : List Char) :
    diceForm (c :: s) = .missed (c :: s) [] ∧ numberForm (c :: s) = .missed (c :: s) [] := by
  have hhead : ∀ c' ∈ (c :: s).head?, isDigit c' = false := forall_head_cons hdigit s
  refine ⟨diceForm_of_head ?_, numberForm_of_head hhead⟩
  rw [natural?_of_head hhead]
  exact forall_head_cons hd s

theorem callForm_of_head (hc : isLetter c = false) (n : Nat) (s : List Char) :
    callForm (n + 1) (c :: s) = .missed (c :: s) [] := by
  simp [callForm, hc]

theorem ofName?_name (builtin : Builtin) :
    Builtin.ofName? (String.ofList builtin.name.toList) = some builtin := by
  cases builtin <;> rfl

theorem name_letters (builtin : Builtin) : ∀ c ∈ builtin.name.toList, isLetter c = true := by
  refine List.all_eq_true.1 ?_
  cases builtin <;> rfl

/-! Rules -/

-- A text of this level is taken as a whole, and not more than it. Eight steps are set aside for
-- each of its characters.
def Completes : Level → List Char → Formula → Prop
  | .sum, w, e => ∀ {n t}, 8 * w.length + 4 ≤ n → Stops t → Ends 1 t →
    sum n (w ++ t) = .done e (skipGaps t)
  | .term, w, e => ∀ {n t}, 8 * w.length + 3 ≤ n → Stops t → Ends 2 t →
    term n (w ++ t) = .done e (skipGaps t)
  | .sign, w, e => ∀ {n t}, 8 * w.length + 2 ≤ n → Stops t → sign n (w ++ t) = .done e t
  | .atom, w, e => ∀ {n t}, 8 * w.length + 1 ≤ n → Stops t → atom n (w ++ t) = .done e t

theorem symbol_injective {op op' : BinaryOp} (h : op.symbol = op'.symbol) : op = op' := by
  cases op <;> cases op' <;> first | rfl | exact absurd h (by decide)

theorem sumOp?_symbol {op : BinaryOp} (h : op.precedence = 1) : sumOp? op.symbol = some op := by
  cases op <;> first | rfl | exact absurd h (by decide)

theorem termOp?_symbol {op : BinaryOp} (h : op.precedence = 2) : termOp? op.symbol = some op := by
  cases op <;> first | rfl | exact absurd h (by decide)

theorem Ends.mono {p q : Nat} (h : Ends p t) (hle : p ≤ q) : Ends q t :=
  fun c hc op hop => h c hc op (Nat.le_trans hle hop)

variable {links : List Link} {precedence : Nat}

theorem skipGaps_links {l : Link} (hgap : Gap l.gap) (s : List Char) :
    skipGaps (l.text ++ s) = l.op.symbol :: (l.word ++ s) := by
  rw [Link.text, List.append_assoc, List.cons_append]
  exact skipGaps_gap hgap (forall_head_cons (isGap_symbol l.op) _)

theorem stops_links (gaps : ∀ l ∈ links, Gap l.gap) (ht : Stops t) :
    Stops (links.flatMap Link.text ++ t) := by
  cases links with
  | nil => exact ht
  | cons l links =>
    simp only [List.flatMap_cons, Link.text, List.append_assoc, List.cons_append]
    exact (gaps l List.mem_cons_self).stops (stops_cons (isPathChar_symbol l.op) _)

-- Behind an operand comes an operator of its chain, which binds looser than what is within.
theorem ends_links (gaps : ∀ l ∈ links, Gap l.gap) (ops : ∀ l ∈ links, l.op.precedence = precedence)
    (ht : Ends precedence t) : Ends (precedence + 1) (links.flatMap Link.text ++ t) := by
  cases links with
  | nil => exact ht.mono (Nat.le_succ precedence)
  | cons l links =>
    rw [List.flatMap_cons, List.append_assoc, Ends, skipGaps_links (gaps l List.mem_cons_self)]
    refine forall_head_cons (fun op hop heq => ?_) _
    have hprecedence := ops l List.mem_cons_self
    rw [symbol_injective heq] at hprecedence
    omega

theorem sumRest_skipGaps (n : Nat) (lhs : Formula) (s : List Char) :
    sumRest (n + 1) lhs (skipGaps s) = sumRest (n + 1) lhs s := by
  simp only [sumRest, skipGaps_skipGaps]

theorem sumRest_end (hends : Ends 1 t) (n : Nat) (lhs : Formula) :
    sumRest (n + 1) lhs t = .done lhs (skipGaps t) := by
  rw [sumRest]
  split
  · next hnil => rw [hnil]
  · next c rest hrest =>
    rw [hrest]
    split
    · next op hop =>
      obtain ⟨heq, hprecedence⟩ := of_sumOp?_eq_some hop
      exact absurd heq (hends c (by simp [hrest]) op (Nat.le_of_eq hprecedence.symm))
    · rfl

theorem termRest_end (hends : Ends 2 t) (n : Nat) (lhs : Formula) :
    termRest (n + 1) lhs t = .done lhs (skipGaps t) := by
  rw [termRest]
  split
  · next hnil => rw [hnil]
  · next c rest hrest =>
    rw [hrest]
    split
    · next op hop =>
      obtain ⟨heq, hprecedence⟩ := of_termOp?_eq_some hop
      exact absurd heq (hends c (by simp [hrest]) op (Nat.le_of_eq hprecedence.symm))
    · rfl

theorem sumRest_complete (gaps : ∀ l ∈ links, Gap l.gap) (ops : ∀ l ∈ links, l.op.precedence = 1)
    (operands : ∀ l ∈ links, Completes .term l.word l.formula) (hstops : Stops t)
    (hends : Ends 1 t) : ∀ {lhs : Formula} {n : Nat},
    8 * (links.flatMap Link.text).length + 1 ≤ n →
    sumRest n lhs (links.flatMap Link.text ++ t) =
      .done (links.foldl Link.join lhs) (skipGaps t) := by
  induction links with
  | nil =>
    intro lhs n hn
    obtain ⟨m, rfl⟩ : ∃ m, n = m + 1 := ⟨n - 1, by omega⟩
    exact sumRest_end hends m lhs
  | cons l links ih =>
    intro lhs n hn
    simp only [List.forall_mem_cons] at gaps ops operands
    simp only [List.flatMap_cons, List.length_append, Link.text, List.length_cons] at hn
    obtain ⟨m, rfl⟩ : ∃ m, n = m + 2 := ⟨n - 2, by omega⟩
    have hrhs := operands.1 (n := m + 1) (t := links.flatMap Link.text ++ t) (by omega)
      (stops_links gaps.2 hstops) (ends_links gaps.2 ops.2 hends)
    rw [List.flatMap_cons, List.append_assoc, sumRest, skipGaps_links gaps.1]
    simp only [sumOp?_symbol ops.1, hrhs, Reply.commit, Reply.andThen]
    rw [sumRest_skipGaps]
    exact ih gaps.2 ops.2 operands.2 (by omega)

theorem termRest_complete (gaps : ∀ l ∈ links, Gap l.gap)
    (ops : ∀ l ∈ links, l.op.precedence = 2)
    (operands : ∀ l ∈ links, Completes .sign l.word l.formula) (hstops : Stops t)
    (hends : Ends 2 t) : ∀ {lhs : Formula} {n : Nat},
    8 * (links.flatMap Link.text).length + 1 ≤ n →
    termRest n lhs (links.flatMap Link.text ++ t) =
      .done (links.foldl Link.join lhs) (skipGaps t) := by
  induction links with
  | nil =>
    intro lhs n hn
    obtain ⟨m, rfl⟩ : ∃ m, n = m + 1 := ⟨n - 1, by omega⟩
    exact termRest_end hends m lhs
  | cons l links ih =>
    intro lhs n hn
    simp only [List.forall_mem_cons] at gaps ops operands
    obtain ⟨m, rfl⟩ : ∃ m, n = m + 1 := ⟨n - 1, by omega⟩
    simp only [List.flatMap_cons, List.length_append, Link.text, List.length_cons] at hn
    have hrhs := operands.1 (n := m) (t := links.flatMap Link.text ++ t) (by omega)
      (stops_links gaps.2 hstops)
    rw [List.flatMap_cons, List.append_assoc, termRest, skipGaps_links gaps.1]
    simp only [termOp?_symbol ops.1, hrhs, Reply.commit, Reply.andThen]
    exact ih gaps.2 ops.2 operands.2 (by omega)

variable {others : List Further} {args : List Formula} {k : List Char}

theorem skipGaps_further {a : Further} (hgap : Gap a.gap) (s : List Char) :
    skipGaps (a.text ++ s) = ',' :: (a.word ++ s) := by
  rw [Further.text, List.append_assoc, List.cons_append]
  exact skipGaps_gap hgap (forall_head_cons (by decide) _)

-- Behind an argument comes a comma or the closing parenthesis.
theorem further_head (gaps : ∀ a ∈ others, Gap a.gap) (hk : Gap k) (t : List Char) :
    Stops (others.flatMap Further.text ++ (k ++ ')' :: t)) ∧
      Ends 1 (others.flatMap Further.text ++ (k ++ ')' :: t)) := by
  have hmark : ∀ op : BinaryOp, ',' ≠ op.symbol ∧ ')' ≠ op.symbol := by
    intro op
    cases op <;> decide
  cases others with
  | nil =>
    refine ⟨hk.stops (stops_cons (by decide) t), ?_⟩
    rw [List.flatMap_nil, List.nil_append, Ends,
      skipGaps_gap hk (forall_head_cons (by decide) t)]
    exact forall_head_cons (fun op _ => (hmark op).2) t
  | cons a others =>
    have hgap := gaps a List.mem_cons_self
    rw [List.flatMap_cons, List.append_assoc]
    refine ⟨?_, ?_⟩
    · rw [Further.text, List.append_assoc, List.cons_append]
      exact hgap.stops (stops_cons (by decide) _)
    · rw [Ends, skipGaps_further hgap]
      exact forall_head_cons (fun op _ => (hmark op).1) _

theorem arguments_complete (gaps : ∀ a ∈ others, Gap a.gap)
    (operands : ∀ a ∈ others, Completes .sum a.word a.formula) (hk : Gap k) (t : List Char) :
    ∀ {args : List Formula} {n : Nat}, 8 * (others.flatMap Further.text).length + 1 ≤ n →
    arguments n args (skipGaps (others.flatMap Further.text ++ (k ++ ')' :: t))) =
      .done (args ++ others.map Further.formula) (')' :: t) := by
  induction others with
  | nil =>
    intro args n hn
    obtain ⟨m, rfl⟩ : ∃ m, n = m + 1 := ⟨n - 1, by omega⟩
    rw [List.flatMap_nil, List.nil_append, skipGaps_gap hk (forall_head_cons (by decide) t)]
    simp [arguments, skipGaps_cons (c := ')') (by decide)]
  | cons a others ih =>
    intro args n hn
    simp only [List.forall_mem_cons] at gaps operands
    obtain ⟨m, rfl⟩ : ∃ m, n = m + 1 := ⟨n - 1, by omega⟩
    simp only [List.flatMap_cons, List.length_append, Further.text, List.length_cons] at hn
    obtain ⟨hstops, hends⟩ := further_head gaps.2 hk t
    have harg := operands.1 (n := m) (by omega) hstops hends
    rw [List.flatMap_cons, List.append_assoc, skipGaps_further gaps.1, arguments,
      skipGaps_cons (by decide)]
    simp only [harg]
    rw [ih gaps.2 operands.2 (by omega)]
    simp

/-! Levels -/

variable {g₀ h : List Char} {builtin : Builtin} {first : Formula}

theorem Completes.sum (head : Completes .term w first) (gaps : ∀ l ∈ links, Gap l.gap)
    (ops : ∀ l ∈ links, l.op.precedence = 1)
    (operands : ∀ l ∈ links, Completes .term l.word l.formula) :
    Completes .sum (w ++ links.flatMap Link.text) (links.foldl Link.join first) := by
  intro n t hn hstops hends
  rw [List.length_append] at hn
  obtain ⟨m, rfl⟩ : ∃ m, n = m + 2 := ⟨n - 2, by omega⟩
  have hhead := head (n := m + 1) (by omega) (stops_links gaps hstops)
    (ends_links gaps ops hends)
  rw [List.append_assoc, Formula.sum, hhead, Reply.andThen, sumRest_skipGaps]
  exact sumRest_complete gaps ops operands hstops hends (by omega)

theorem Completes.term (head : Completes .sign w first) (gaps : ∀ l ∈ links, Gap l.gap)
    (ops : ∀ l ∈ links, l.op.precedence = 2)
    (operands : ∀ l ∈ links, Completes .sign l.word l.formula) :
    Completes .term (w ++ links.flatMap Link.text) (links.foldl Link.join first) := by
  intro n t hn hstops hends
  rw [List.length_append] at hn
  obtain ⟨m, rfl⟩ : ∃ m, n = m + 1 := ⟨n - 1, by omega⟩
  have hhead := head (n := m) (by omega) (stops_links gaps hstops)
  rw [List.append_assoc, Formula.term, hhead, Reply.andThen]
  exact termRest_complete gaps ops operands hstops hends (by omega)

theorem Completes.minus (hgap : Gap g) (inner : Completes .sign w e) :
    Completes .sign (g ++ '-' :: w) (.neg e) := by
  intro n t hn hstops
  simp only [List.length_append, List.length_cons] at hn
  obtain ⟨m, rfl⟩ : ∃ m, n = m + 1 := ⟨n - 1, by omega⟩
  have hinner := inner (n := m) (by omega) hstops
  rw [List.append_assoc, List.cons_append, Formula.sign,
    skipGaps_gap hgap (forall_head_cons (by decide) _)]
  simp only [hinner, Reply.commit, Reply.map, Reply.andThen]

theorem Completes.plus (hgap : Gap g) (inner : Completes .atom w e) :
    Completes .sign (g ++ '+' :: w) e := by
  intro n t hn hstops
  simp only [List.length_append, List.length_cons] at hn
  obtain ⟨m, rfl⟩ : ∃ m, n = m + 1 := ⟨n - 1, by omega⟩
  have hinner := inner (n := m) (by omega) hstops
  rw [List.append_assoc, List.cons_append, Formula.sign,
    skipGaps_gap hgap (forall_head_cons (by decide) _)]
  exact hinner

-- Neither a blank nor a sign.
def Opens (c : Char) : Prop := isBlank c = false ∧ c ≠ '-' ∧ c ≠ '+'

instance (c : Char) : Decidable (Opens c) := inferInstanceAs (Decidable (_ ∧ _))

theorem isBlank_of_isGap (h : isGap c = true) : isBlank c = true := by
  simp only [isGap, Bool.or_eq_true, decide_eq_true_eq] at h
  obtain ((rfl | rfl) | rfl) | rfl := h <;> decide

theorem Opens.isGap (h : Opens c) : isGap c = false := by
  cases hgap : Formula.isGap c with
  | false => rfl
  | true => exact absurd h.1 (by simp [isBlank_of_isGap hgap])

-- White space lies outside of the characters of a path.
theorem isBlank_of_isPathChar (h : isPathChar c = true) : isBlank c = false := by
  have hbounds : 46 ≤ c.toNat ∧ c.toNat ≤ 122 := by
    simp only [isPathChar, isLetter, isDigit, Bool.or_eq_true, Bool.and_eq_true,
      decide_eq_true_eq, Char.le_def, UInt32.le_iff_toNat_le, Char.reduceVal,
      UInt32.reduceToNat] at h
    rw [Char.toNat]
    obtain (((h | h) | h) | rfl) | rfl := h
    · omega
    · omega
    · omega
    · decide
    · decide
  simp only [isBlank, Bool.or_eq_false_iff, Bool.and_eq_false_iff, decide_eq_false_iff_not,
    beq_eq_false_iff_ne]
  omega

theorem opens_of_isDigit (h : isDigit c = true) : Opens c :=
  ⟨isBlank_of_isPathChar (isPathChar_of_isDigit h), ne_of_isDigit h (by decide),
    ne_of_isDigit h (by decide)⟩

theorem IsNumeral.head {x : Binary64} (h : IsNumeral w x) : ∃ c v, w = c :: v ∧ Opens c := by
  cases h with
  | whole digits =>
    obtain ⟨c, v, rfl, hc⟩ := digits.exists_cons
    exact ⟨c, v, rfl, opens_of_isDigit hc⟩
  | point digits fraction =>
    obtain ⟨c, v, rfl, hc⟩ := digits.exists_cons
    exact ⟨c, _, rfl, opens_of_isDigit hc⟩

theorem IsThrow.head {term : DiceTerm} (h : IsThrow w term) : ∃ c v, w = c :: v ∧ Opens c := by
  cases h with
  | intro counted letter digits some_face few kept =>
    cases counted with
    | single =>
      refine ⟨_, _, rfl, ?_⟩
      obtain rfl | rfl := letter <;> decide
    | given digits few =>
      obtain ⟨c, v, rfl, hc⟩ := digits.exists_cons
      exact ⟨c, _, rfl, opens_of_isDigit hc⟩

-- Behind its blanks an atom starts with a character that is neither blank nor a sign.
theorem Derives.head (h : Derives .atom w e) : ∃ g c v, w = g ++ c :: v ∧ Gap g ∧ Opens c := by
  cases h with
  | number gap numeral =>
    obtain ⟨c, v, rfl, hc⟩ := numeral.head
    exact ⟨_, c, v, rfl, gap, hc⟩
  | dice gap throw =>
    obtain ⟨c, v, rfl, hc⟩ := throw.head
    exact ⟨_, c, v, rfl, gap, hc⟩
  | path gap some_char chars => exact ⟨_, '@', _, rfl, gap, by decide⟩
  | @call g h k w builtin first others gap opening closing head gaps arguments =>
    cases builtin <;> exact ⟨_, _, _, rfl, gap, by decide⟩
  | group gap closing inner => exact ⟨_, '(', _, rfl, gap, by decide⟩

theorem skipGaps_opens (hgap : Gap g) (hc : Opens c) (s : List Char) :
    skipGaps (g ++ c :: s) = c :: s :=
  skipGaps_gap hgap (forall_head_cons hc.isGap s)

theorem Completes.bare (hatom : Derives .atom w e) (inner : Completes .atom w e) :
    Completes .sign w e := by
  intro n t hn hstops
  obtain ⟨m, rfl⟩ : ∃ m, n = m + 2 := ⟨n - 2, by omega⟩
  have hinner := inner (n := m + 1) (by omega) hstops
  obtain ⟨g, c, v, rfl, hgap, hc⟩ := hatom.head
  rw [List.append_assoc, List.cons_append] at hinner ⊢
  rw [Formula.sign, skipGaps_opens hgap hc]
  split
  · next heq => cases heq; exact absurd rfl hc.2.1
  · next heq => cases heq; exact absurd rfl hc.2.2
  · rw [← hinner, Formula.atom, Formula.atom, skipGaps_opens hgap hc, skipGaps_cons hc.isGap]

theorem Completes.number {x : Binary64} (hgap : Gap g) (numeral : IsNumeral w x) :
    Completes .atom (g ++ w) (.number x) := by
  intro n t hn hstops
  obtain ⟨m, rfl⟩ : ∃ m, n = m + 1 := ⟨n - 1, by omega⟩
  obtain ⟨hdice, hnumber⟩ := numeral.complete hstops
  obtain ⟨c, v, rfl, hc⟩ := numeral.head
  rw [List.cons_append] at hdice hnumber
  simp only [Formula.atom, List.append_assoc, List.cons_append, skipGaps_opens hgap hc, hdice,
    hnumber, Reply.orElse, Reply.within]

theorem Completes.dice {term : DiceTerm} (hgap : Gap g) (throw : IsThrow w term) :
    Completes .atom (g ++ w) (.dice term) := by
  intro n t hn hstops
  obtain ⟨m, rfl⟩ : ∃ m, n = m + 1 := ⟨n - 1, by omega⟩
  have hdice := throw.complete hstops
  obtain ⟨c, v, rfl, hc⟩ := throw.head
  rw [List.cons_append] at hdice
  simp only [Formula.atom, List.append_assoc, List.cons_append, skipGaps_opens hgap hc, hdice,
    Reply.orElse, Reply.within]

theorem Completes.path (hgap : Gap g) (some_char : w ≠ [])
    (chars : ∀ c ∈ w, isPathChar c = true) :
    Completes .atom (g ++ '@' :: w) (.path (pathName w)) := by
  intro n t hn hstops
  obtain ⟨m, rfl⟩ : ∃ m, n = m + 1 := ⟨n - 1, by omega⟩
  obtain ⟨hdice, hnumber⟩ := forms_of_head (c := '@') (by decide) (by decide) (w ++ t)
  simp only [Formula.atom, List.append_assoc, List.cons_append,
    skipGaps_opens hgap (c := '@') (by decide), hdice, hnumber,
    pathForm_complete some_char chars hstops, Reply.orElse, Reply.within]

theorem Completes.group (hgap : Gap g) (hk : Gap k) (inner : Completes .sum w e) :
    Completes .atom (g ++ '(' :: (w ++ (k ++ [')']))) e := by
  intro n t hn hstops
  simp only [List.length_append, List.length_cons] at hn
  obtain ⟨m, rfl⟩ : ∃ m, n = m + 2 := ⟨n - 2, by omega⟩
  obtain ⟨hstops', hends⟩ : Stops (k ++ ')' :: t) ∧ Ends 1 (k ++ ')' :: t) :=
    further_head (List.forall_mem_nil _) hk t
  have hinner := inner (n := m) (by omega) hstops' hends
  rw [skipGaps_gap hk (forall_head_cons (by decide) t)] at hinner
  obtain ⟨hdice, hnumber⟩ :=
    forms_of_head (c := '(') (by decide) (by decide) (w ++ (k ++ ')' :: t))
  have htext : g ++ '(' :: (w ++ (k ++ [')'])) ++ t = g ++ '(' :: (w ++ (k ++ ')' :: t)) := by simp
  rw [htext]
  simp only [Formula.atom, skipGaps_opens hgap (c := '(') (by decide), hdice, hnumber,
    pathForm_of_head (forall_head_cons (c := '(') (by decide) _),
    callForm_of_head (c := '(') (by decide), groupForm, hinner, skipGaps_cons (c := ')') (by decide),
    Reply.orElse, Reply.andThen, Reply.within]

theorem name_takeWhile (builtin : Builtin) (hh : Gap h) (s : List Char) :
    (builtin.name.toList ++ (h ++ '(' :: s)).takeWhile isLetter = builtin.name.toList ∧
      (builtin.name.toList ++ (h ++ '(' :: s)).dropWhile isLetter = h ++ '(' :: s := by
  have hstop : ∀ c ∈ (h ++ '(' :: s).head?, isLetter c = false := by
    have hstops : Stops (h ++ '(' :: s) := hh.stops (stops_cons (by decide) s)
    intro c hc
    have hchar := hstops c hc
    simp only [isPathChar, Bool.or_eq_false_iff] at hchar
    exact hchar.1.1.1
  exact ⟨takeWhile_run (name_letters builtin) hstop, dropWhile_run (name_letters builtin) hstop⟩

theorem callForm_complete (builtin : Builtin) (hh : Gap h) (hk : Gap k) (head : Completes .sum w first)
    (gaps : ∀ a ∈ others, Gap a.gap)
    (operands : ∀ a ∈ others, Completes .sum a.word a.formula)
    (hn : 8 * (w.length + (others.flatMap Further.text).length) + 4 ≤ n) (t : List Char) :
    callForm (n + 1) (builtin.name.toList ++ (h ++ '(' :: (w ++
      (others.flatMap Further.text ++ (k ++ ')' :: t))))) =
        .done (.call builtin (first :: others.map Further.formula)) t := by
  obtain ⟨hstops, hends⟩ := further_head gaps hk t
  have hhead := head (n := n) (by omega) hstops hends
  have harguments := @arguments_complete others k gaps operands hk t [first] n (by omega)
  obtain ⟨hname, hbehind⟩ := name_takeWhile builtin hh
    (w ++ (others.flatMap Further.text ++ (k ++ ')' :: t)))
  simp only [callForm, hname, hbehind, ofName?_name]
  rw [if_neg (by cases builtin <;> decide), skipGaps_gap hh (forall_head_cons (by decide) _)]
  simp only [hhead, harguments, Reply.andThen, skipGaps_cons (c := ')') (by decide)]
  rfl

theorem Completes.call (hgap : Gap g) (hh : Gap h) (hk : Gap k) (head : Completes .sum w first)
    (gaps : ∀ a ∈ others, Gap a.gap)
    (operands : ∀ a ∈ others, Completes .sum a.word a.formula) :
    Completes .atom
      (g ++ (builtin.name.toList ++ (h ++ '(' :: (w ++ (others.flatMap Further.text ++
        (k ++ [')']))))))
      (.call builtin (first :: others.map Further.formula)) := by
  intro n t hn hstops
  simp only [List.length_append, List.length_cons] at hn
  obtain ⟨m, rfl⟩ : ∃ m, n = m + 2 := ⟨n - 2, by omega⟩
  have hcall := callForm_complete builtin hh hk head gaps operands (n := m) (by omega) t
  obtain ⟨c, name, heq, hc, hdigit, hd, hat⟩ := name_head builtin
  rw [heq, List.cons_append] at hcall
  obtain ⟨hdice, hnumber⟩ := forms_of_head hdigit hd (name ++ (h ++ '(' :: (w ++
    (others.flatMap Further.text ++ (k ++ ')' :: t)))))
  have hpath := pathForm_of_head (forall_head_cons (p := fun c => c ≠ '@') hat (name ++ (h ++
    '(' :: (w ++ (others.flatMap Further.text ++ (k ++ ')' :: t))))))
  have htext : g ++ (builtin.name.toList ++ (h ++ '(' :: (w ++ (others.flatMap Further.text ++
      (k ++ [')']))))) ++ t = g ++ c :: (name ++ (h ++ '(' :: (w ++
        (others.flatMap Further.text ++ (k ++ ')' :: t))))) := by simp [heq]
  rw [htext, Formula.atom, skipGaps_gap hgap (forall_head_cons hc _)]
  simp only [hdice, hnumber, hpath, hcall, Reply.orElse, Reply.within]

theorem Derives.completes {level : Level} (h : Derives level w e) : Completes level w e := by
  induction h with
  | sum _ gaps ops _ head operands => exact Completes.sum head gaps ops operands
  | term _ gaps ops _ head operands => exact Completes.term head gaps ops operands
  | minus gap _ inner => exact Completes.minus gap inner
  | plus gap _ inner => exact Completes.plus gap inner
  | bare hatom inner => exact Completes.bare hatom inner
  | number gap numeral => exact Completes.number gap numeral
  | dice gap throw => exact Completes.dice gap throw
  | path gap some_char chars => exact Completes.path gap some_char chars
  | call gap opening closing _ gaps _ head operands =>
    exact Completes.call gap opening closing head gaps operands
  | group gap closing _ inner => exact Completes.group gap closing inner

/-! Whole texts -/

theorem Derives.exists_opens {level : Level} (h : Derives level w e) : ∃ c ∈ w, Opens c := by
  have hatom : ∀ {w e}, Derives .atom w e → ∃ c ∈ w, Opens c := by
    intro w e h
    obtain ⟨g, c, v, rfl, -, hc⟩ := h.head
    exact ⟨c, by simp, hc⟩
  induction h with
  | sum _ _ _ _ head | term _ _ _ _ head =>
    obtain ⟨c, hmem, hc⟩ := head
    exact ⟨c, List.mem_append_left _ hmem, hc⟩
  | minus _ _ inner | plus _ _ inner =>
    obtain ⟨c, hmem, hc⟩ := inner
    exact ⟨c, by simp [hmem], hc⟩
  | bare _ inner => exact inner
  | number gap numeral => exact hatom (.number gap numeral)
  | dice gap throw => exact hatom (.dice gap throw)
  | path gap some_char chars => exact hatom (.path gap some_char chars)
  | call gap opening closing head gaps arguments =>
    exact hatom (.call gap opening closing head gaps arguments)
  | group gap closing inner => exact hatom (.group gap closing inner)

-- Nothing of a formula goes on in the white space behind it.
theorem stops_of_blank (h : ∀ c ∈ t, isBlank c = true) : Stops t ∧ Ends 1 t := by
  have hsymbol : ∀ op : BinaryOp, isBlank op.symbol = false := by
    intro op
    cases op <;> decide
  refine ⟨fun c hc => ?_, fun c hc op _ heq => ?_⟩
  · cases hchar : isPathChar c with
    | false => rfl
    | true => exact absurd (h c (List.mem_of_mem_head? hc)) (by simp [isBlank_of_isPathChar hchar])
  · have hmem : c ∈ t := (List.dropWhile_suffix isGap).subset (List.mem_of_mem_head? hc)
    exact absurd (h c hmem) (by simp [heq, hsymbol op])

theorem Written.parse {text : String} (h : Written text e) : Formula.parse text = .ok e := by
  obtain ⟨w, blanks, htext, hblanks, hw⟩ := h
  obtain ⟨c, hmem, hc⟩ := hw.exists_opens
  have hnonblank : allBlank text = false := by
    refine Bool.eq_false_iff.2 fun hall => ?_
    have hblank := List.all_eq_true.1 hall c (htext ▸ List.mem_append_left _ hmem)
    simp [hc.1] at hblank
  have hsteps : 8 * w.length + 4 ≤ steps (w ++ blanks) := by
    rw [steps, List.length_append]
    omega
  obtain ⟨hstops, hends⟩ := stops_of_blank hblanks
  have hsum := hw.completes hsteps hstops hends
  have hrest : trimLeft (skipGaps blanks) = [] :=
    List.dropWhile_eq_nil_iff.2 fun c hc => hblanks c ((List.dropWhile_suffix isGap).subset hc)
  simp only [Formula.parse, hnonblank, htext, hsum, hrest]
  rfl

theorem written_of_parse {text : String} (h : parse text = .ok e) : Written text e := by
  simp only [parse] at h
  split at h
  · cases h
  split at h
  · cases h
  · cases h
  · next formula rest hsum =>
    obtain ⟨w, g, htext, hgap, hw⟩ := (sound _).sum hsum
    split at h
    · next hrest =>
      cases h
      refine ⟨w, g ++ rest, htext, ?_, hw⟩
      exact List.forall_mem_append.2 ⟨fun c hc => isBlank_of_isGap (hgap c hc),
        List.dropWhile_eq_nil_iff.1 hrest⟩
    · cases h

theorem Written.unique {text : String} {e' : Formula} (h : Written text e) (h' : Written text e') :
    e = e' :=
  Except.ok.inj (h.parse.symm.trans h'.parse)

-- The reader accepts the texts of the grammar and no others, and gives their one formula.
theorem parse_iff_written (text : String) :
    (∀ e, parse text = .ok e ↔ Written text e) ∧
      ∀ e e', Written text e → Written text e' → e = e' :=
  ⟨fun _ => ⟨written_of_parse, Written.parse⟩, fun _ _ h h' => h.unique h'⟩

theorem written_of_signs_and_blanks :
    Written "-@hp. - +2D6kh1 \u3000"
        (.binary .sub (.neg (.path "hp")) (.dice ⟨2, 6, some (.highest 1)⟩)) ∧
      parse "-@hp. - +2D6kh1 \u3000" =
        .ok (.binary .sub (.neg (.path "hp")) (.dice ⟨2, 6, some (.highest 1)⟩)) ∧
      ∀ e, Written "-@hp. - +2D6kh1 \u3000" e →
        e = .binary .sub (.neg (.path "hp")) (.dice ⟨2, 6, some (.highest 1)⟩) := by
  have hpath : Derives .atom "@hp.".toList (.path "hp") :=
    .path (g := []) (w := "hp.".toList) gap_nil (by decide) (List.all_eq_true.1 rfl)
  have hneg : Derives .sign "-@hp.".toList (.neg (.path "hp")) := .minus (g := []) gap_nil hpath.bare
  have hthrow : IsThrow "2D6kh1".toList ⟨2, 6, some (.highest 1)⟩ :=
    .intro (a := ['2']) (f := ['6']) (k := "kh1".toList) (.given (by decide) (by decide)) (.inr rfl)
      (by decide) (by decide) (by decide) (.highest (w := ['1']) (by decide) (by decide))
  have hplus : Derives .sign " +2D6kh1".toList (.dice ⟨2, 6, some (.highest 1)⟩) :=
    .plus (g := [' ']) (by decide) (.dice (g := []) gap_nil hthrow)
  have hwritten : Written "-@hp. - +2D6kh1 \u3000"
      (.binary .sub (.neg (.path "hp")) (.dice ⟨2, 6, some (.highest 1)⟩)) := by
    refine ⟨"-@hp. - +2D6kh1".toList, " \u3000".toList, by decide, List.all_eq_true.1 rfl, ?_⟩
    exact hneg.of_sign.of_term.sum_append (l := ⟨[' '], .sub, " +2D6kh1".toList, _⟩) (by decide) rfl
      hplus.of_sign
  obtain ⟨hiff, hunique⟩ := parse_iff_written "-@hp. - +2D6kh1 \u3000"
  exact ⟨hwritten, (hiff _).2 hwritten, fun e h => hunique e _ h hwritten⟩

end Tabletop.Formula
