import Tabletop.Proofs.Formula.Forms
import Tabletop.Proofs.Formula.Placeholder

-- Which texts can be used, what they become, and which of them still have a '#'. The names that are
-- listed beforehand are the ones that decide it.
namespace Tabletop

-- Whether a value is a number, a boolean or a text.
def Json.IsScalar : Json → Prop
  | .int _ | .float _ | .bool _ | .str _ => True
  | .null | .arr _ | .obj _ => False

theorem Binary64.format_unmarked (x : Binary64) : '#' ∉ x.format.toList := by
  cases hx : x.isFinite with
  | true =>
    obtain ⟨negative, w, hnumeral, hw, -⟩ := format_numeral hx
    have hnone : '#' ∉ w := fun hmark => absurd (hnumeral.isPathChar _ hmark) (by decide)
    rw [hw]
    cases negative with
    | false => exact hnone
    | true => simpa using hnone
  | false =>
    cases x with
    | finite => cases hx
    | infinite s => cases s <;> decide +kernel
    | nan => decide +kernel

namespace Placeholder

variable {text id operation out : String} {values values' : String → Option Json}

/-! References and what they stand for -/

-- Whether a reference is well-formed and stands for a value that can be put in.
def Resolves (values : String → Option Json) (id : String) : Prop :=
  isName id = true ∧ ∃ v, values id = some v ∧ v.IsScalar

theorem isScalar_iff {v : Json} : v.IsScalar ↔ ∃ s, render? v = some s := by
  cases v <;> simp [Json.IsScalar, render?]

theorem resolve?_eq_some_iff {s : String} : resolve? values id = some s ↔
    isName id = true ∧ ∃ v, values id = some v ∧ render? v = some s := by
  unfold resolve?
  split
  · next hname => simp [hname, Option.bind_eq_some_iff]
  · next hname => simp [hname]

theorem resolves_iff : Resolves values id ↔ ∃ s, resolve? values id = some s := by
  simp only [resolve?_eq_some_iff, Resolves, isScalar_iff]
  constructor
  · rintro ⟨hname, v, hv, s, hs⟩
    exact ⟨s, hname, v, hv, hs⟩
  · rintro ⟨s, hname, v, hv, hs⟩
    exact ⟨hname, v, hv, s, hs⟩

theorem isNone_resolve? : (resolve? values id).isNone = true ↔ ¬ Resolves values id := by
  rw [resolves_iff, ← Option.isSome_iff_exists]
  cases resolve? values id <;> simp

theorem missing?_eq_some_iff : missing? text values = some id ↔ ∃ before after,
    ids text = before ++ id :: after ∧ (∀ other ∈ before, Resolves values other) ∧
      ¬ Resolves values id := by
  have hresolves : ∀ other, (!(resolve? values other).isNone) = true ↔ Resolves values other := by
    intro other
    rw [Bool.not_eq_true', ← Bool.not_eq_true, isNone_resolve?, not_not]
  rw [missing?, List.find?_eq_some_iff_append, isNone_resolve?]
  simp only [hresolves]
  constructor
  · rintro ⟨hid, before, after, hsplit, hbefore⟩
    exact ⟨before, after, hsplit, hbefore, hid⟩
  · rintro ⟨before, after, hsplit, hbefore, hid⟩
    exact ⟨hid, before, after, hsplit, hbefore⟩

/-! Texts that are used -/

theorem resolve?_congr (h : values' id = values id) : resolve? values' id = resolve? values id := by
  rw [resolve?, resolve?, h]

theorem substitute_congr (h : ∀ id ∈ ids text, values' id = values id) :
    substitute text operation values' = substitute text operation values := by
  obtain ⟨l, hl⟩ := exists_layout text.toList
  cases hfirst : missing? text values with
  | none =>
    obtain ⟨form, hform⟩ := exists_form hfirst
    have hform' : ∀ id ∈ ids text, resolve? values' id = some (form id) :=
      fun id hid => (resolve?_congr (h id hid)).trans (hform id hid)
    rw [substitute_eq_fill hl hform, substitute_eq_fill hl hform']
  | some id =>
    obtain ⟨before, after, hsplit, hbefore, hid⟩ := missing?_eq_some_iff.1 hfirst
    have hagree : ∀ other ∈ ids text, Resolves values' other ↔ Resolves values other := by
      intro other hother
      rw [Resolves, Resolves, h other hother]
    have hfirst' : missing? text values' = some id := by
      refine missing?_eq_some_iff.2 ⟨before, after, hsplit, fun other hother => ?_, ?_⟩
      · exact (hagree other (by simp [hsplit, hother])).2 (hbefore other hother)
      · rwa [hagree id (by simp [hsplit])]
    rw [substitute_eq_error hfirst, substitute_eq_error hfirst']

theorem substitute_eq_ok_iff : (∃ out, substitute text operation values = .ok out) ↔
    ∀ id ∈ ids text, Resolves values id := by
  obtain ⟨l, hl⟩ := exists_layout text.toList
  cases hfirst : missing? text values with
  | none =>
    obtain ⟨form, hform⟩ := exists_form hfirst
    rw [substitute_eq_fill hl hform]
    exact iff_of_true ⟨_, rfl⟩ fun id hid => resolves_iff.2 ⟨_, hform id hid⟩
  | some id =>
    obtain ⟨before, after, hsplit, -, hid⟩ := missing?_eq_some_iff.1 hfirst
    rw [substitute_eq_error hfirst]
    exact iff_of_false (by simp) fun hall => hid (hall id (by simp [hsplit]))

theorem fill_of_substitute {l : Layout} (hl : l.text = text.toList)
    (h : substitute text operation values = .ok out) : ∃ form : String → String,
      (∀ id ∈ ids text, ∃ v, values id = some v ∧ render? v = some (form id)) ∧
        out.toList = l.fill form := by
  cases hfirst : missing? text values with
  | some id =>
    rw [substitute_eq_error hfirst] at h
    cases h
  | none =>
    obtain ⟨form, hform⟩ := exists_form hfirst
    rw [substitute_eq_fill hl hform] at h
    refine ⟨form, fun id hid => (resolve?_eq_some_iff.1 (hform id hid)).2, ?_⟩
    rw [← Except.ok.inj h, String.toList_ofList]

-- The names that are listed of a text are those of its references, each of which takes all word
-- characters it can. They alone decide whether the text can be used, which failure it tells of
-- otherwise, and what stands in place of the references, with everything between them as it was.
theorem substitute_by_names (text operation : String) (values : String → Option Json) :
    (∃ l : Layout, l.text = text.toList ∧ (∀ l' : Layout, l'.text = text.toList → l' = l) ∧
      ids text = l.names.eraseDups ∧
      ∀ out, substitute text operation values = .ok out → ∃ form : String → String,
        (∀ id ∈ ids text, ∃ v, values id = some v ∧ render? v = some (form id)) ∧
          out.toList = l.fill form) ∧
    ((∃ out, substitute text operation values = .ok out) ↔
      ∀ id ∈ ids text, Resolves values id) ∧
    (∀ failure, substitute text operation values = .error failure ↔ ∃ before id after,
      ids text = before ++ id :: after ∧ (∀ other ∈ before, Resolves values other) ∧
        ¬ Resolves values id ∧ failure = .unresolved operation id) ∧
    ∀ values', (∀ id ∈ ids text, values' id = values id) →
      substitute text operation values' = substitute text operation values := by
  refine ⟨?_, substitute_eq_ok_iff, fun failure => ?_, fun values' => substitute_congr⟩
  · obtain ⟨l, hl⟩ := exists_layout text.toList
    refine ⟨l, hl, fun l' hl' => Layout.text_injective (hl'.trans hl.symm), ?_,
      fun out => fill_of_substitute hl⟩
    rw [ids_eq, references_of_text hl]
  · simp only [substitute_eq_error_iff, missing?_eq_some_iff]
    constructor
    · rintro ⟨id, ⟨before, after, hsplit, hbefore, hid⟩, hfailure⟩
      exact ⟨before, id, after, hsplit, hbefore, hid, hfailure⟩
    · rintro ⟨before, id, after, hsplit, hbefore, hid, hfailure⟩
      exact ⟨id, ⟨before, after, hsplit, hbefore, hid⟩, hfailure⟩

-- Values among them a text that looks like a reference.
def burning : String → Option Json
  | "kind" => some (.str "#fire")
  | "bonus" => some (.int 2)
  | _ => none

def quenched : String → Option Json
  | "fire" => some (.str "smoke")
  | id => burning id

theorem substitute_by_names_burning :
    (∃ l : Layout, l.text = "#bonus+#kind+#bonus".toList ∧ ∃ form : String → String,
      (∀ id ∈ ids "#bonus+#kind+#bonus", ∃ v, burning id = some v ∧ render? v = some (form id)) ∧
        "2+#fire+2".toList = l.fill form) ∧
    (∀ id ∈ ids "#bonus+#kind+#bonus", quenched id = burning id) ∧
    substitute "#bonus+#kind+#bonus" "strike" quenched = .ok "2+#fire+2" ∧
    ids "#kind+#1st+#" = ["kind"] ++ "1st" :: [""] ∧ ¬ Resolves burning "1st" ∧
    substitute "#kind+#1st+#" "strike" burning = .error (.unresolved "strike" "1st") := by
  have hout : substitute "#bonus+#kind+#bonus" "strike" burning = .ok "2+#fire+2" := by
    decide +kernel
  have hids : ids "#bonus+#kind+#bonus" = ["bonus", "kind"] := by decide
  have hagree : ∀ id ∈ ids "#bonus+#kind+#bonus", quenched id = burning id := by
    rw [hids]
    simp [quenched]
  have hlisted : ids "#kind+#1st+#" = ["kind"] ++ "1st" :: [""] := by decide
  have hkind : ∀ other ∈ ["kind"], Resolves burning other := by
    rintro other hother
    obtain rfl := List.mem_singleton.1 hother
    exact ⟨by decide, .str "#fire", rfl, trivial⟩
  have hfirst : ¬ Resolves burning "1st" := fun h => absurd h.1 (by decide)
  obtain ⟨⟨l, hl, -, -, hfill⟩, -, -, hcongr⟩ :=
    substitute_by_names "#bonus+#kind+#bonus" "strike" burning
  obtain ⟨-, -, herror, -⟩ := substitute_by_names "#kind+#1st+#" "strike" burning
  exact ⟨⟨l, hl, hfill _ hout⟩, hagree, (hcongr quenched hagree).trans hout, hlisted, hfirst,
    (herror _).2 ⟨_, _, _, hlisted, hkind, hfirst, rfl⟩⟩

/-! Marks that are left -/

theorem marked_fill {form : String → String} (l : Layout) :
    '#' ∈ l.fill form ↔ ∃ id ∈ l.names, '#' ∈ (form id).toList := by
  have htoken : ∀ t : Token, '#' ∈ (form t.name).toList ++ t.gap ↔ '#' ∈ (form t.name).toList := by
    intro t
    rw [List.mem_append]
    exact or_iff_left t.plain
  rw [Layout.fill, List.mem_append, or_iff_right l.plain, Layout.fillTokens, List.mem_flatMap]
  simp only [htoken, Layout.names, List.mem_map, exists_exists_and_eq_and]

theorem marked_render? {v : Json} {s : String} (h : render? v = some s) :
    '#' ∈ s.toList ↔ ∃ t, v = .str t ∧ '#' ∈ t.toList := by
  cases v with
  | int n =>
    obtain rfl := Option.some.inj h
    simp [Binary64.format_unmarked]
  | float x =>
    obtain rfl := Option.some.inj h
    simp [Binary64.format_unmarked]
  | bool b =>
    obtain rfl := Option.some.inj h
    cases b <;> simp
  | str t =>
    obtain rfl := Option.some.inj h
    simp
  | null | arr | obj => cases h

-- Numbers and booleans bring no '#' into a text, and texts bring those that they have.
theorem substitute_unmarked_iff (h : substitute text operation values = .ok out) :
    '#' ∉ out.toList ↔
      ∀ id ∈ ids text, ∀ s, values id = some (.str s) → '#' ∉ s.toList := by
  obtain ⟨l, hl⟩ := exists_layout text.toList
  obtain ⟨form, hform, hout⟩ := fill_of_substitute hl h
  have hnames : ∀ id, id ∈ l.names ↔ id ∈ ids text := by
    intro id
    rw [mem_ids, references_of_text hl]
  rw [hout, marked_fill, not_exists]
  constructor
  · intro hnone id hid s hs hmark
    obtain ⟨v, hv, hrender⟩ := hform id hid
    obtain rfl := Option.some.inj (hv.symm.trans hs)
    exact hnone id ⟨(hnames id).2 hid, (marked_render? hrender).2 ⟨s, rfl, hmark⟩⟩
  · rintro hnone id ⟨hid, hmark⟩
    obtain ⟨v, hv, hrender⟩ := hform id ((hnames id).1 hid)
    obtain ⟨s, rfl, hs⟩ := (marked_render? hrender).1 hmark
    exact hnone id ((hnames id).1 hid) s hv hs

theorem substitute_unmarked_iff_burning :
    substitute "#bonus + 1" "strike" burning = .ok "2 + 1" ∧
      (∀ id ∈ ids "#bonus + 1", ∀ s, burning id = some (.str s) → '#' ∉ s.toList) ∧
      substitute "#kind + 1" "strike" burning = .ok "#fire + 1" ∧
      ¬ ∀ id ∈ ids "#kind + 1", ∀ s, burning id = some (.str s) → '#' ∉ s.toList := by
  have hplain : substitute "#bonus + 1" "strike" burning = .ok "2 + 1" := by decide +kernel
  have hmarked : substitute "#kind + 1" "strike" burning = .ok "#fire + 1" := by decide +kernel
  refine ⟨hplain, (substitute_unmarked_iff hplain).1 (by decide), hmarked, fun hall => ?_⟩
  exact (substitute_unmarked_iff hmarked).2 hall (by decide)

end Placeholder

end Tabletop
