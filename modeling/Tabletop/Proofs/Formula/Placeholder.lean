import Tabletop.Formula.Placeholder
import Tabletop.Proofs.Text.Runs

-- A text cut at its references, and the text that is left when they give way to something.
namespace Tabletop.Placeholder

open Tabletop.Text

/-! Texts cut at their references -/

-- A reference takes all word characters behind its '#'. The gap is what stands between it and the
-- next one.
@[ext]
structure Token where
  id : List Char
  gap : List Char
  word : ∀ c ∈ id, isWordChar c = true
  plain : '#' ∉ gap
  maximal : ∀ c ∈ gap.head?, isWordChar c = false

def Token.name (t : Token) : String := String.ofList t.id

@[ext]
structure Layout where
  opening : List Char
  tokens : List Token
  plain : '#' ∉ opening

namespace Layout

-- What stands in place of the references and between them.
def fillTokens (form : String → String) (tokens : List Token) : List Char :=
  tokens.flatMap fun t => (form t.name).toList ++ t.gap

def fill (form : String → String) (l : Layout) : List Char :=
  l.opening ++ fillTokens form l.tokens

-- The text as it is written.
def text (l : Layout) : List Char := l.fill ("#" ++ ·)

def names (l : Layout) : List String := l.tokens.map Token.name

end Layout

theorem fillTokens_cons (t : Token) (tokens : List Token) :
    Layout.fillTokens ("#" ++ ·) (t :: tokens) =
      '#' :: (t.id ++ (t.gap ++ Layout.fillTokens ("#" ++ ·) tokens)) := by
  simp [Layout.fillTokens, Token.name]

theorem eq_mark_of_fillTokens {tokens : List Token} :
    ∀ c ∈ (Layout.fillTokens ("#" ++ ·) tokens).head?, (c != '#') = false := by
  cases tokens with
  | nil => simp [Layout.fillTokens]
  | cons t tokens => simp [fillTokens_cons]

theorem Token.maximal_fillTokens (t : Token) (tokens : List Token) :
    ∀ c ∈ (t.gap ++ Layout.fillTokens ("#" ++ ·) tokens).head?, isWordChar c = false := by
  intro c hc
  rw [List.head?_append] at hc
  cases hgap : t.gap.head? with
  | some d =>
    rw [hgap, Option.some_or] at hc
    exact t.maximal c (hgap.trans hc)
  | none =>
    rw [hgap, Option.none_or] at hc
    obtain rfl : c = '#' := by simpa using eq_mark_of_fillTokens c hc
    decide

theorem unmarked_iff {w : List Char} : '#' ∉ w ↔ ∀ c ∈ w, (c != '#') = true := by
  simp only [bne_iff_ne]
  exact ⟨fun h c hc heq => h (heq ▸ hc), fun h hmark => h _ hmark rfl⟩

theorem eq_of_fillTokens_eq {tokens others : List Token}
    (h : Layout.fillTokens ("#" ++ ·) tokens = Layout.fillTokens ("#" ++ ·) others) :
    tokens = others := by
  induction tokens generalizing others with
  | nil =>
    cases others with
    | nil => rfl
    | cons t others => rw [fillTokens_cons] at h; cases h
  | cons t tokens ih =>
    cases others with
    | nil => rw [fillTokens_cons] at h; cases h
    | cons u others =>
      rw [fillTokens_cons, fillTokens_cons] at h
      obtain ⟨hid, hbehind⟩ := run_injective t.word (t.maximal_fillTokens tokens) u.word
        (u.maximal_fillTokens others) (List.cons.inj h).2
      obtain ⟨hgap, hrest⟩ := run_injective (unmarked_iff.1 t.plain) eq_mark_of_fillTokens
        (unmarked_iff.1 u.plain) eq_mark_of_fillTokens hbehind
      rw [Token.ext hid hgap, ih hrest]

-- There is one way to cut a text.
theorem Layout.text_injective {l l' : Layout} (h : l.text = l'.text) : l = l' := by
  obtain ⟨hopening, htokens⟩ := run_injective (unmarked_iff.1 l.plain) eq_mark_of_fillTokens
    (unmarked_iff.1 l'.plain) eq_mark_of_fillTokens h
  exact Layout.ext hopening (eq_of_fillTokens_eq htokens)

theorem exists_layout (s : List Char) : ∃ l : Layout, l.text = s := by
  induction s with
  | nil => exact ⟨⟨[], [], by simp⟩, rfl⟩
  | cons c s ih =>
    obtain ⟨⟨opening, tokens, hplain⟩, rfl⟩ := ih
    by_cases hc : c = '#'
    · subst hc
      have hsplit := List.takeWhile_append_dropWhile (p := isWordChar) (l := opening)
      have hgap : '#' ∉ opening.dropWhile isWordChar :=
        fun hmark => hplain ((List.dropWhile_suffix _).subset hmark)
      let t : Token := ⟨opening.takeWhile isWordChar, opening.dropWhile isWordChar,
        List.all_eq_true.1 List.all_takeWhile, hgap, head?_dropWhile opening⟩
      refine ⟨⟨[], t :: tokens, by simp⟩, ?_⟩
      rw [Layout.text, Layout.fill, fillTokens_cons, Layout.text, Layout.fill, List.nil_append,
        ← List.append_assoc, hsplit]
    · refine ⟨⟨c :: opening, tokens, ?_⟩, rfl⟩
      rw [List.mem_cons, not_or]
      exact ⟨Ne.symm hc, hplain⟩

/-! Pieces and references -/

theorem scan_plain {w : List Char} (h : '#' ∉ w) (s : List Char) :
    scan none (w ++ s) = w.map .plain ++ scan none s := by
  induction w with
  | nil => rfl
  | cons c w ih =>
    rw [List.mem_cons, not_or] at h
    rw [List.cons_append, scan, if_neg (Ne.symm h.1), ih h.2, List.map_cons, List.cons_append]

theorem scan_word {id w s : List Char} (h : ∀ c ∈ w, isWordChar c = true)
    (hs : ∀ c ∈ s.head?, isWordChar c = false) :
    scan (some id) (w ++ s) = .reference (id ++ w) :: scan none s := by
  induction w generalizing id with
  | nil =>
    cases s with
    | nil => simp [scan]
    | cons c s =>
      have hc : isWordChar c = false := hs c rfl
      simp [scan, hc]
  | cons c w ih =>
    rw [List.forall_mem_cons] at h
    rw [List.cons_append, scan, if_pos h.1, ih h.2, List.append_assoc, List.singleton_append]

def Piece.name? : Piece → Option String
  | .plain _ => none
  | .reference id => some (String.ofList id)

-- A piece of a text with each reference replaced.
def Piece.text (form : List Char → String) : Piece → String
  | .plain c => String.singleton c
  | .reference id => form id

def Layout.pieces (l : Layout) : List Piece :=
  l.opening.map .plain ++ l.tokens.flatMap fun t => .reference t.id :: t.gap.map .plain

theorem Layout.scan_text (l : Layout) : scan none l.text = l.pieces := by
  have htokens : ∀ tokens : List Token, scan none (Layout.fillTokens ("#" ++ ·) tokens) =
      tokens.flatMap fun t => .reference t.id :: t.gap.map .plain := by
    intro tokens
    induction tokens with
    | nil => rfl
    | cons t tokens ih =>
      rw [fillTokens_cons, scan, if_pos rfl, scan_word t.word (t.maximal_fillTokens tokens),
        List.nil_append, scan_plain t.plain, ih, List.flatMap_cons, List.cons_append]
  rw [Layout.text, Layout.fill, scan_plain l.plain, htokens, Layout.pieces]

variable {text id operation : String} {values : String → Option Json} {l : Layout}

theorem pieces_of_text (h : l.text = text.toList) : pieces text = l.pieces := by
  rw [pieces, ← h, l.scan_text]

theorem references_eq (text : String) : references text = (pieces text).filterMap Piece.name? := by
  rfl

theorem references_of_text (h : l.text = text.toList) : references text = l.names := by
  have hgap : ∀ w : List Char, (w.map Piece.plain).filterMap Piece.name? = [] := by
    intro w
    rw [List.filterMap_map]
    exact List.filterMap_eq_nil_iff.2 fun _ _ => rfl
  rw [references_eq, pieces_of_text h, Layout.pieces, Layout.names, List.filterMap_append, hgap,
    List.nil_append]
  induction l.tokens with
  | nil => rfl
  | cons t tokens ih =>
    rw [List.flatMap_cons, List.filterMap_append, ih, List.filterMap_cons, hgap]
    rfl

theorem foldl_distinct (names seen : List String) :
    names.foldl (fun seen id => if seen.contains id then seen else seen ++ [id]) seen =
      seen ++ (names.filter fun id => !seen.contains id).eraseDups := by
  induction names generalizing seen with
  | nil => simp
  | cons name names ih =>
    rw [List.foldl_cons, ih]
    cases hseen : seen.contains name with
    | true => rw [if_pos rfl, List.filter_cons_of_neg (by rw [hseen]; decide)]
    | false =>
      rw [if_neg Bool.false_ne_true, List.filter_cons_of_pos (by rw [hseen]; rfl),
        List.eraseDups_cons, List.filter_filter, List.append_assoc, List.singleton_append]
      congr 3
      refine List.filter_congr fun other _ => ?_
      by_cases hother : other = name <;> simp [hother]

theorem ids_eq (text : String) : ids text = (references text).eraseDups := by
  rw [ids, foldl_distinct, List.nil_append]
  exact congrArg List.eraseDups (List.filter_eq_self.2 fun _ _ => rfl)

theorem mem_ids : id ∈ ids text ↔ id ∈ references text := by
  rw [ids_eq, List.mem_eraseDups]

theorem mem_references {name : List Char} (h : .reference name ∈ pieces text) :
    String.ofList name ∈ ids text := by
  rw [mem_ids, references_eq, List.mem_filterMap]
  exact ⟨_, h, rfl⟩

theorem find?_eraseDups (p : String → Bool) :
    ∀ names : List String, names.eraseDups.find? p = names.find? p
  | [] => rfl
  | name :: names => by
    have hshorter := List.length_filter_le (fun other => !other == name) names
    rw [List.eraseDups_cons, List.find?_cons, List.find?_cons]
    cases hname : p name with
    | true => rfl
    | false =>
      simp only
      rw [find?_eraseDups p (names.filter _), List.find?_filter]
      congr 1
      funext other
      by_cases hother : other = name <;> simp [hother, hname]
termination_by names => names.length

/-! Substitution -/

theorem mapM_eq_ok {ε α β : Type} {f : α → Except ε β} {g : α → β} {xs : List α}
    (h : ∀ x ∈ xs, f x = .ok (g x)) : xs.mapM f = .ok (xs.map g) := by
  induction xs with
  | nil => rfl
  | cons x xs ih =>
    rw [List.forall_mem_cons] at h
    rw [List.mapM_cons, h.1, ih h.2]
    rfl

theorem mapM_eq_error {ε α β : Type} {f : α → Except ε β} {g : α → β} {xs ys : List α} {x : α}
    {e : ε} (h : ∀ x ∈ xs, f x = .ok (g x)) (hx : f x = .error e) :
    (xs ++ x :: ys).mapM f = .error e := by
  induction xs with
  | nil =>
    rw [List.nil_append, List.mapM_cons, hx]
    rfl
  | cons x' xs ih =>
    rw [List.forall_mem_cons] at h
    rw [List.cons_append, List.mapM_cons, h.1, ih h.2]
    rfl

theorem substitute_eq_ok (form : List Char → String)
    (h : ∀ id, .reference id ∈ pieces text → resolve? values (String.ofList id) = some (form id)) :
    substitute text operation values = .ok (String.join ((pieces text).map (Piece.text form))) := by
  rw [substitute, mapM_eq_ok (g := Piece.text form)]
  · rfl
  · intro p hp
    cases p with
    | plain c => rfl
    | reference id =>
      simp only [h id hp]
      rfl

theorem substitute_eq_fill {form : String → String} (hl : l.text = text.toList)
    (h : ∀ id ∈ ids text, resolve? values id = some (form id)) :
    substitute text operation values = .ok (String.ofList (l.fill form)) := by
  have hgap : ∀ w : List Char, (w.map Piece.plain).flatMap
      (fun p => (p.text fun id => form (String.ofList id)).toList) = w := by
    intro w
    simp [List.flatMap_map, Piece.text]
  rw [substitute_eq_ok (fun id => form (String.ofList id)) fun id hid => h _ (mem_references hid)]
  congr 1
  rw [← String.toList_inj, String.toList_join, String.toList_ofList, List.flatMap_map,
    pieces_of_text hl, Layout.pieces, List.flatMap_append, hgap, Layout.fill, Layout.fillTokens,
    List.flatMap_assoc]
  congr 1
  refine congrArg (List.flatMap · l.tokens) (funext fun t => ?_)
  rw [List.flatMap_cons, hgap]
  rfl

-- The first name that has nothing to give way to.
def missing? (text : String) (values : String → Option Json) : Option String :=
  (ids text).find? fun id => (resolve? values id).isNone

theorem substitute_eq_error (h : missing? text values = some id) :
    substitute text operation values = .error (.unresolved operation id) := by
  rw [missing?, ids_eq, find?_eraseDups, references_eq, List.find?_filterMap, Option.bind_eq_some_iff] at h
  obtain ⟨piece, hfirst, hid⟩ := h
  obtain ⟨hnone, before, after, hsplit, hbefore⟩ := List.find?_eq_some_iff_append.1 hfirst
  cases piece with
  | plain c => cases hid
  | reference name =>
    obtain rfl := Option.some.inj hid
    have hunresolved : resolve? values (String.ofList name) = none := by simpa [Piece.name?] using hnone
    rw [substitute, hsplit, mapM_eq_error
      (g := Piece.text fun id => (resolve? values (String.ofList id)).getD "")
      (e := .unresolved operation (String.ofList name))]
    · rfl
    · intro p hp
      cases p with
      | plain c => rfl
      | reference id =>
        have hsome : (resolve? values (String.ofList id)).isSome = true := by
          simpa [Piece.name?] using hbefore _ hp
        obtain ⟨s, hs⟩ := Option.isSome_iff_exists.1 hsome
        simp [hs, Piece.text]
    · simp [hunresolved]

theorem exists_form (h : missing? text values = none) :
    ∃ form : String → String, ∀ id ∈ ids text, resolve? values id = some (form id) := by
  refine ⟨fun id => (resolve? values id).getD "", fun id hid => ?_⟩
  have hnot := List.find?_eq_none.1 h id hid
  cases hs : resolve? values id with
  | none =>
    rw [hs] at hnot
    exact absurd rfl hnot
  | some s => simp [hs]

theorem substitute_eq_error_iff {failure : Failure} :
    substitute text operation values = .error failure ↔
      ∃ id, missing? text values = some id ∧ failure = .unresolved operation id := by
  obtain ⟨l, hl⟩ := exists_layout text.toList
  cases hfirst : missing? text values with
  | none =>
    obtain ⟨form, hform⟩ := exists_form hfirst
    rw [substitute_eq_fill hl hform]
    simp
  | some id =>
    rw [substitute_eq_error hfirst]
    simp [eq_comm]

-- Only a reference that has nothing to give way to keeps a text from being used.
theorem substitute_error {failure : Failure}
    (h : substitute text operation values = .error failure) :
    ∃ id ∈ ids text, resolve? values id = none ∧ failure = .unresolved operation id := by
  obtain ⟨id, hfirst, hfailure⟩ := substitute_eq_error_iff.1 h
  have hnone : resolve? values id = none := by simpa using List.find?_some hfirst
  exact ⟨id, List.mem_of_find?_eq_some hfirst, hnone, hfailure⟩

end Tabletop.Placeholder
