/-
  Relayout/Proofs/Extension/Satisfied.lean
  ========================================
  **When the extensions of a node can be mapped.**

  `Rule.Satisfied` tells what a rule asks of a node, by the kinds of the values that the node
  has under the keys of the rule and, for items, by how they go together.  A rule succeeds
  exactly on the nodes that satisfy it, whatever layout it edits and wherever the node
  stands (`Rule.error_apply_eq_none_iff`), and a table succeeds when no key is claimed or
  when there is no layout yet and all rules that claim a key are satisfied
  (`Table.exists_mapped_iff`).  The layout that it then gives is what its rules make of no layout
  (`Table.layout?_eq`).
-/
import Relayout.Extension.Table
import Relayout.Proofs.Outcome

namespace Relayout

namespace Members

/-- The text under a key. -/
def text? (node : Members) (key : String) : Option String :=
  (node.get? key).bind Json.asString?

/-- There is a text under a key or nothing. -/
def TextIfAny (node : Members) (key : String) : Prop :=
  ∀ v, node.get? key = some v → ∃ text, v = .str text

theorem get?_eq_none_iff_has (node : Members) (key : String) :
    node.get? key = none ↔ node.has key = false := by
  rw [get?_eq_none_iff, ← has_iff_mem_keys, Bool.not_eq_true]

theorem text?_eq_none_of_has (node : Members) {key : String} (h : node.has key = false) :
    node.text? key = none := by
  rw [text?, (get?_eq_none_iff_has node key).2 h]
  rfl

/-- Where what is there is a text, there is a text exactly if there is something. -/
theorem text?_ne_none_iff {node : Members} {key : String}
    (h : node.has key = true → node.TextIfAny key) :
    node.text? key ≠ none ↔ node.has key = true := by
  cases hhas : node.has key with
  | false => simp [text?_eq_none_of_has node hhas]
  | true =>
    have hget : node.get? key ≠ none := by
      rw [ne_eq, get?_eq_none_iff_has, hhas]
      exact Bool.noConfusion
    obtain ⟨v, hv⟩ := Option.ne_none_iff_exists'.1 hget
    obtain ⟨text, rfl⟩ := h hhas v hv
    simp [text?, hv, Json.asString?]

end Members

/-- What items ask of a node. -/
structure Rule.ItemsFit (detector : Template.Detector) (node : Members) : Prop where
  texts : ∀ key ∈ Rule.itemSource.keys, node.TextIfAny key
  oneSource : node.text? "x-fromData" = none ∨ node.text? "x-fromUrl" = none
  itemsProp : node.text? "x-itemsProp" ≠ none → node.text? "x-fromUrl" ≠ none
  list : node.text? "x-fromData" = none → node.text? "x-fromUrl" = none →
    Site.isArray ⟨"", node, detector⟩ = true
  expression : ∀ expr, node.text? "x-fromData" = some expr →
    (detector.detect expr .expression).classification ≠ .template

/-- What a rule asks of a node. -/
def Rule.Satisfied (detector : Template.Detector) (node : Members) : Rule → Prop
  | .itemSource => Rule.ItemsFit detector node
  | .display => node.TextIfAny "x-display"
  | .condition => node.TextIfAny "x-if"
  | .presentation =>
    (∀ v, node.get? "x-props" = some v → ∃ props, v = .obj props) ∧
      ∀ v, node.get? "x-cols" = some v → (∃ n, v = .num n) ∨ ∃ sizes, v = .obj sizes

theorem Site.string_eq_ok_iff {s : Site} {key : String} {text : Option String} :
    s.string key = .ok text ↔ s.node.TextIfAny key ∧ text = s.node.text? key := by
  unfold Site.string Members.TextIfAny Members.text?
  split
  · rename_i hnone
    simp [hnone, eq_comm]
  · rename_i found hfound
    simp [hfound, Json.asString?, eq_comm]
  · rename_i v hnot hv
    simp only [reduceCtorEq, false_iff, not_and]
    intro htext
    obtain ⟨found, rfl⟩ := htext v hv
    exact absurd rfl (hnot found)

namespace Rule

/-- The texts about items, when each is a text if it is there. -/
theorem itemExtensions_eq_ok_iff {s : Site} {x : ItemExtensions} :
    itemExtensions s = .ok x ↔
      (∀ key ∈ Rule.itemSource.keys, s.node.TextIfAny key) ∧
        x = ⟨s.node.text? "x-fromData", s.node.text? "x-fromUrl", s.node.text? "x-itemsProp",
          s.node.text? "x-itemKey", s.node.text? "x-itemTitle"⟩ := by
  simp only [itemExtensions, keys, List.forall_mem_cons, bind_eq_ok_iff, Site.string_eq_ok_iff,
    pure, Except.pure, Except.ok.injEq]
  constructor
  · rintro ⟨_, ⟨h₁, rfl⟩, _, ⟨h₂, rfl⟩, _, ⟨h₃, rfl⟩, _, ⟨h₄, rfl⟩, _, ⟨h₅, rfl⟩, rfl⟩
    exact ⟨⟨h₁, h₂, h₃, h₄, h₅, by simp⟩, rfl⟩
  · rintro ⟨⟨h₁, h₂, h₃, h₄, h₅, -⟩, rfl⟩
    exact ⟨_, ⟨h₁, rfl⟩, _, ⟨h₂, rfl⟩, _, ⟨h₃, rfl⟩, _, ⟨h₄, rfl⟩, _, ⟨h₅, rfl⟩, rfl⟩

theorem exists_itemOrigin_iff {s : Site} {x : ItemExtensions} :
    (∃ origin, itemOrigin s x = .ok origin) ↔
      (x.fromData = none ∨ x.fromUrl = none) ∧ (x.itemsProp ≠ none → x.fromUrl ≠ none) ∧
        (x.fromData = none → x.fromUrl = none → s.isArray = true) ∧
        ∀ expr, x.fromData = some expr →
          (s.detector.detect expr .expression).classification ≠ .template := by
  obtain ⟨fromData, fromUrl, itemsProp, itemKey, itemTitle⟩ := x
  cases fromData with
  | some expr =>
    cases fromUrl with
    | some url => simp [itemOrigin]
    | none =>
      cases itemsProp with
      | some prop => simp [itemOrigin]
      | none =>
        by_cases htemplate :
            (s.detector.detect expr .expression).classification = .template <;>
          simp [itemOrigin, htemplate]
  | none =>
    cases fromUrl with
    | some url => simp [itemOrigin]
    | none =>
      cases itemsProp with
      | some prop => simp [itemOrigin]
      | none => cases hlist : s.isArray <;> simp [itemOrigin, hlist]

/-! ### Rules -/

theorem exists_applyItemSource_iff {s : Site} {layout : LayoutNode} :
    (∃ out, applyItemSource s layout = .ok out) ↔ ItemsFit s.detector s.node := by
  have hok : (∃ out, applyItemSource s layout = .ok out) ↔
      ∃ x, itemExtensions s = .ok x ∧ ∃ origin, itemOrigin s x = .ok origin := by
    simp only [applyItemSource, bind_eq_ok_iff]
    constructor
    · rintro ⟨_, x, hx, origin, horigin, -⟩
      exact ⟨x, hx, origin, horigin⟩
    · rintro ⟨x, hx, origin, horigin⟩
      cases origin with
      | some found => exact ⟨_, x, hx, some found, horigin, rfl⟩
      | none => exact ⟨_, x, hx, none, horigin, rfl⟩
  rw [hok]
  simp only [itemExtensions_eq_ok_iff, exists_itemOrigin_iff]
  constructor
  · rintro ⟨_, ⟨htexts, rfl⟩, hone, hprop, hlist, hexpr⟩
    exact ⟨htexts, hone, hprop, hlist, hexpr⟩
  · rintro ⟨htexts, hone, hprop, hlist, hexpr⟩
    exact ⟨_, ⟨htexts, rfl⟩, hone, hprop, hlist, hexpr⟩

theorem exists_applyDisplay_iff {s : Site} {layout : LayoutNode} :
    (∃ out, applyDisplay s layout = .ok out) ↔ s.node.TextIfAny "x-display" := by
  simp only [applyDisplay, bind_eq_ok_iff, Site.string_eq_ok_iff]
  constructor
  · rintro ⟨_, _, ⟨htext, -⟩, -⟩
    exact htext
  · intro htext
    cases hcomp : s.node.text? "x-display" with
    | some comp => exact ⟨_, some comp, ⟨htext, rfl⟩, rfl⟩
    | none => exact ⟨_, none, ⟨htext, rfl⟩, rfl⟩

theorem exists_applyCondition_iff {s : Site} {layout : LayoutNode} :
    (∃ out, applyCondition s layout = .ok out) ↔ s.node.TextIfAny "x-if" := by
  simp only [applyCondition, bind_eq_ok_iff, Site.string_eq_ok_iff]
  constructor
  · rintro ⟨_, _, ⟨htext, -⟩, -⟩
    exact htext
  · intro htext
    cases hcond : s.node.text? "x-if" with
    | some cond => exact ⟨_, some cond, ⟨htext, rfl⟩, rfl⟩
    | none => exact ⟨_, none, ⟨htext, rfl⟩, rfl⟩

theorem exists_applyProps_iff {s : Site} {layout : LayoutNode} :
    (∃ out, applyProps s layout = .ok out) ↔
      ∀ v, s.node.get? "x-props" = some v → ∃ props, v = .obj props := by
  unfold applyProps
  cases hget : s.node.get? "x-props" with
  | none => simp
  | some v => cases v <;> simp

theorem exists_applyCols_iff {s : Site} {layout : LayoutNode} :
    (∃ out, applyCols s layout = .ok out) ↔
      ∀ v, s.node.get? "x-cols" = some v → (∃ n, v = .num n) ∨ ∃ sizes, v = .obj sizes := by
  unfold applyCols
  cases hget : s.node.get? "x-cols" with
  | none => simp
  | some v => cases v <;> simp

theorem error_applyEdits_cons {s : Site} {layout : LayoutNode}
    {edit : Site → LayoutNode → Except MigrationError LayoutNode}
    {rest : List (Site → LayoutNode → Except MigrationError LayoutNode)} :
    (applyEdits s (edit :: rest) layout).error = none ↔
      ∃ out, edit s layout = .ok out ∧ (applyEdits s rest out).error = none := by
  rw [applyEdits]
  cases edit s layout <;> simp

/-- A rule succeeds exactly on the nodes that satisfy it. -/
theorem error_apply_eq_none_iff {rule : Rule} {s : Site} (layout : LayoutNode) :
    (rule.apply s layout).error = none ↔ rule.Satisfied s.detector s.node := by
  have hdone (out : LayoutNode) : (applyEdits s [] out).error = none := rfl
  cases rule with
  | itemSource =>
    simp only [apply, edits, error_applyEdits_cons, hdone, and_true]
    exact exists_applyItemSource_iff
  | display =>
    simp only [apply, edits, error_applyEdits_cons, hdone, and_true]
    exact exists_applyDisplay_iff
  | condition =>
    simp only [apply, edits, error_applyEdits_cons, hdone, and_true]
    exact exists_applyCondition_iff
  | presentation =>
    simp only [apply, edits, error_applyEdits_cons, hdone, and_true, exists_applyCols_iff,
      exists_and_right, exists_applyProps_iff]
    exact Iff.rfl

end Rule

namespace Table

/-! ### Tables -/

theorem exists_applyRules_iff {s : Site} {rules : List Rule} (layout : LayoutNode) :
    (∃ out, (applyRules s rules layout).2 = .ok out) ↔
      ∀ rule ∈ rules, rule.Satisfied s.detector s.node := by
  induction rules generalizing layout with
  | nil => simp [applyRules]
  | cons rule rules ih =>
    rw [List.forall_mem_cons, ← Rule.error_apply_eq_none_iff layout]
    unfold applyRules
    cases hedited : rule.apply s layout with
    | mk layout' error =>
      cases error with
      | none => simpa using ih layout'
      | some e => simp

section Result

variable {table : Table} {s : Site}

theorem result_map_of_unclaimed (h : table.consumed s.node = []) :
    (table.map s).result = .ok {} := by
  rw [map, h]
  rfl

theorem result_map_of_layout (hclaimed : table.consumed s.node ≠ [])
    (hlayout : s.node.has "layout" = true) :
    (table.map s).result = .error (.unsupportedCombination
      ((table.consumed s.node).mergeSort (fun a b => decide (a ≤ b)) ++ ["layout"]) s.place
      .layoutPresent) := by
  have hnot : (table.consumed s.node).isEmpty = false := by simpa using hclaimed
  simp only [map, hnot, hlayout, Bool.false_eq_true, if_false, if_true]

theorem result_map_of_rules (hclaimed : table.consumed s.node ≠ [])
    (hlayout : s.node.has "layout" = false) :
    (table.map s).result = (applyRules s (table.applicable s.node) {}).2.map
      (fun layout => ⟨layout.finalize, table.consumed s.node⟩) := by
  have hnot : (table.consumed s.node).isEmpty = false := by simpa using hclaimed
  simp only [map, hnot, hlayout, Bool.false_eq_true, if_false]

/-- Whether the extensions of a node can be mapped does not depend on where the node stands. -/
theorem exists_mapped_iff :
    (∃ mapped, (table.map s).result = .ok mapped) ↔
      table.consumed s.node = [] ∨
        s.node.has "layout" = false ∧
          ∀ rule ∈ table.applicable s.node, rule.Satisfied s.detector s.node := by
  by_cases hclaimed : table.consumed s.node = []
  · simp [result_map_of_unclaimed hclaimed, hclaimed]
  · rw [or_iff_right hclaimed]
    cases hlayout : s.node.has "layout" with
    | true => simp [result_map_of_layout hclaimed hlayout]
    | false =>
      rw [result_map_of_rules hclaimed hlayout, exists_map_eq_ok_iff, exists_applyRules_iff]
      simp

end Result

/-- The layout of a node that has claimed keys and no layout is what the rules make of no layout. -/
theorem layout?_eq (table : Table) (s : Site) : table.layout? s
    = if table.consumed s.node = [] ∨ s.node.has "layout" = true then none
      else (applyRules s (table.applicable s.node) {}).2.toOption.bind LayoutNode.finalize := by
  unfold layout?
  by_cases hclaimed : table.consumed s.node = []
  · rw [result_map_of_unclaimed hclaimed, if_pos (Or.inl hclaimed)]
  · cases hlayout : s.node.has "layout" with
    | true => rw [result_map_of_layout hclaimed hlayout, if_pos (Or.inr rfl)]
    | false =>
      rw [result_map_of_rules hclaimed hlayout, if_neg (by simp [hclaimed])]
      cases (applyRules s (table.applicable s.node) {}).2 <;> rfl

end Table

end Relayout
