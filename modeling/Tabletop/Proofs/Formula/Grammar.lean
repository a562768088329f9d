import Mathlib.Data.List.DropRight
import Tabletop.Formula.Parser

-- The grammar of formulas as a relation between texts and formulas, apart from the order in which
-- a reader tries its forms. The levels are those of `sum`, `term`, `sign` and `atom`.
namespace Tabletop.Formula

open Tabletop.Text

-- Blanks may stand before operators, signs, atoms and closing parentheses, between the name of a
-- function and its parenthesis and before a comma.
def Gap (s : List Char) : Prop := ∀ c ∈ s, isGap c = true

def Digits (s : List Char) : Prop := s ≠ [] ∧ ∀ c ∈ s, isDigit c = true

instance (s : List Char) : Decidable (Gap s) := List.decidableBAll (fun c => isGap c = true) s

instance (s : List Char) : Decidable (Digits s) :=
  @instDecidableAnd _ _ inferInstance (List.decidableBAll (fun c => isDigit c = true) s)

inductive IsNumeral : List Char → Binary64 → Prop
  | whole {w : List Char} (digits : Digits w) :
    IsNumeral w (Binary64.ofDecimal false (ofDigits w) 0)
  | point {w f : List Char} (digits : Digits w) (fraction : Digits f) :
    IsNumeral (w ++ '.' :: f)
      (Binary64.ofDecimal false (ofDigits (w ++ f)) (-(f.length : Int)))

-- A throw without a count is one die.
inductive IsCount : List Char → Nat → Prop
  | single : IsCount [] 1
  | given {w : List Char} (digits : Digits w) (few : ofDigits w ≤ maxDice) :
    IsCount w (ofDigits w)

inductive IsKeep : List Char → Option Keep → Prop
  | all : IsKeep [] none
  | highest {w : List Char} (digits : Digits w) (fits : ofDigits w ≤ maxNatural) :
    IsKeep ('k' :: 'h' :: w) (some (.highest (ofDigits w)))
  | lowest {w : List Char} (digits : Digits w) (fits : ofDigits w ≤ maxNatural) :
    IsKeep ('k' :: 'l' :: w) (some (.lowest (ofDigits w)))

inductive IsThrow : List Char → DiceTerm → Prop
  | intro {a f k : List Char} {c : Char} {count : Nat} {keep : Option Keep}
    (counted : IsCount a count) (letter : c = 'd' ∨ c = 'D') (digits : Digits f)
    (some_face : 1 ≤ ofDigits f) (few : ofDigits f ≤ maxFaces) (kept : IsKeep k keep) :
    IsThrow (a ++ c :: (f ++ k)) ⟨count, ofDigits f, keep⟩

-- Dots at the end of a path are dropped.
def pathName (w : List Char) : String := String.ofList (w.reverse.dropWhile (· = '.')).reverse

-- An operator with the operand behind it.
structure Link where
  gap : List Char
  op : BinaryOp
  word : List Char
  formula : Formula

namespace Link

def text (l : Link) : List Char := l.gap ++ l.op.symbol :: l.word

def join (lhs : Formula) (l : Link) : Formula := .binary l.op lhs l.formula

end Link

-- A comma with the argument behind it.
structure Further where
  gap : List Char
  word : List Char
  formula : Formula

def Further.text (a : Further) : List Char := a.gap ++ ',' :: a.word

inductive Level where
  | sum
  | term
  | sign
  | atom

-- Chains of operators are left-associative, which is what `foldl` says.
inductive Derives : Level → List Char → Formula → Prop
  | sum {w : List Char} {first : Formula} {links : List Link} (head : Derives .term w first)
    (gaps : ∀ l ∈ links, Gap l.gap) (ops : ∀ l ∈ links, l.op.precedence = 1)
    (operands : ∀ l ∈ links, Derives .term l.word l.formula) :
    Derives .sum (w ++ links.flatMap Link.text) (links.foldl Link.join first)
  | term {w : List Char} {first : Formula} {links : List Link} (head : Derives .sign w first)
    (gaps : ∀ l ∈ links, Gap l.gap) (ops : ∀ l ∈ links, l.op.precedence = 2)
    (operands : ∀ l ∈ links, Derives .sign l.word l.formula) :
    Derives .term (w ++ links.flatMap Link.text) (links.foldl Link.join first)
  | minus {g w : List Char} {e : Formula} (gap : Gap g) (inner : Derives .sign w e) :
    Derives .sign (g ++ '-' :: w) (.neg e)
  | plus {g w : List Char} {e : Formula} (gap : Gap g) (inner : Derives .atom w e) :
    Derives .sign (g ++ '+' :: w) e
  | bare {w : List Char} {e : Formula} (inner : Derives .atom w e) : Derives .sign w e
  | number {g w : List Char} {x : Binary64} (gap : Gap g) (numeral : IsNumeral w x) :
    Derives .atom (g ++ w) (.number x)
  | dice {g w : List Char} {term : DiceTerm} (gap : Gap g) (throw : IsThrow w term) :
    Derives .atom (g ++ w) (.dice term)
  | path {g w : List Char} (gap : Gap g) (some_char : w ≠ [])
    (chars : ∀ c ∈ w, isPathChar c = true) : Derives .atom (g ++ '@' :: w) (.path (pathName w))
  | call {g h k w : List Char} {builtin : Builtin} {first : Formula} {others : List Further}
    (gap : Gap g) (opening : Gap h) (closing : Gap k) (head : Derives .sum w first)
    (gaps : ∀ a ∈ others, Gap a.gap) (arguments : ∀ a ∈ others, Derives .sum a.word a.formula) :
    Derives .atom
      (g ++ (builtin.name.toList ++ (h ++ '(' :: (w ++ (others.flatMap Further.text ++
        (k ++ [')']))))))
      (.call builtin (first :: others.map Further.formula))
  | group {g k w : List Char} {e : Formula} (gap : Gap g) (closing : Gap k)
    (inner : Derives .sum w e) : Derives .atom (g ++ '(' :: (w ++ (k ++ [')']))) e

-- White space of any kind may follow a formula.
def Written (text : String) (e : Formula) : Prop :=
  ∃ w blanks, text.toList = w ++ blanks ∧ (∀ c ∈ blanks, isBlank c = true) ∧ Derives .sum w e

/-! Gaps -/

variable {g g' s t w : List Char} {e : Formula}

@[simp] theorem gap_nil : Gap [] := by simp [Gap]

theorem Gap.append (h : Gap g) (h' : Gap g') : Gap (g ++ g') := by
  intro c hc
  obtain hc | hc := List.mem_append.1 hc
  · exact h c hc
  · exact h' c hc

theorem skipGaps_append (h : Gap g) (s : List Char) : skipGaps (g ++ s) = skipGaps s :=
  List.dropWhile_append_of_pos h

theorem skipGaps_cons {c : Char} (h : isGap c = false) (s : List Char) :
    skipGaps (c :: s) = c :: s := by
  simp [skipGaps, h]

@[simp] theorem skipGaps_skipGaps (s : List Char) : skipGaps (skipGaps s) = skipGaps s :=
  List.dropWhile_idempotent _ _

-- What is skipped is a gap.
theorem exists_gap (s : List Char) : ∃ g, Gap g ∧ s = g ++ skipGaps s :=
  ⟨s.takeWhile isGap, fun _ hc => List.mem_takeWhile_imp hc, (List.takeWhile_append_dropWhile).symm⟩

/-! Chains -/

theorem forall_mem_snoc {α : Type} {p : α → Prop} {xs : List α} {x : α} (h : ∀ y ∈ xs, p y)
    (hx : p x) : ∀ y ∈ xs ++ [x], p y :=
  List.forall_mem_append.2 ⟨h, List.forall_mem_singleton.2 hx⟩

theorem Derives.sum_append (h : Derives .sum w e) {l : Link} (gap : Gap l.gap)
    (op : l.op.precedence = 1) (operand : Derives .term l.word l.formula) :
    Derives .sum (w ++ l.text) (.binary l.op e l.formula) := by
  cases h with
  | sum head gaps ops operands =>
    simpa [Link.join] using Derives.sum head (forall_mem_snoc gaps gap) (forall_mem_snoc ops op)
      (forall_mem_snoc operands operand)

theorem Derives.term_append (h : Derives .term w e) {l : Link} (gap : Gap l.gap)
    (op : l.op.precedence = 2) (operand : Derives .sign l.word l.formula) :
    Derives .term (w ++ l.text) (.binary l.op e l.formula) := by
  cases h with
  | term head gaps ops operands =>
    simpa [Link.join] using Derives.term head (forall_mem_snoc gaps gap) (forall_mem_snoc ops op)
      (forall_mem_snoc operands operand)

-- A text keeps its formula behind more blanks.
theorem Derives.gap_append {level : Level} (hgap : Gap g) (h : Derives level w e) :
    Derives level (g ++ w) e := by
  induction h with
  | sum _ gaps ops operands head => simpa using Derives.sum head gaps ops operands
  | term _ gaps ops operands head => simpa using Derives.term head gaps ops operands
  | minus gap inner => simpa using Derives.minus (hgap.append gap) inner
  | plus gap inner => simpa using Derives.plus (hgap.append gap) inner
  | bare _ inner => exact .bare inner
  | number gap numeral => simpa using Derives.number (hgap.append gap) numeral
  | dice gap throw => simpa using Derives.dice (hgap.append gap) throw
  | path gap some_char chars => simpa using Derives.path (hgap.append gap) some_char chars
  | call gap opening closing head gaps arguments =>
    simpa using Derives.call (hgap.append gap) opening closing head gaps arguments
  | group gap closing inner => simpa using Derives.group (hgap.append gap) closing inner

theorem Derives.of_sign (h : Derives .sign w e) : Derives .term w e := by
  simpa using @Derives.term w e [] h (by simp) (by simp) (by simp)

theorem Derives.of_term (h : Derives .term w e) : Derives .sum w e := by
  simpa using @Derives.sum w e [] h (by simp) (by simp) (by simp)

end Tabletop.Formula
