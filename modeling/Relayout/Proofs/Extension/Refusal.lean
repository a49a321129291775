/-
  Relayout/Proofs/Extension/Refusal.lean
  ======================================
  **Why the extensions of a node are refused.**

  `Rule.Refuses` lists what a rule may find wrong with a node and the error it then gives.  The
  checks of a rule are made one after the other, so each cause is told together with the checks
  that were passed before; on every node that does not satisfy a rule there is therefore exactly
  one cause (`Rule.error_apply_eq_some_iff`), whatever layout the rule was to edit.  A table is
  refused for the first of its rules that claims a key of the node and is not satisfied
  (`Table.refuses_map`).
-/
import Relayout.Proofs.Extension.Satisfied

namespace Relayout

/-! ### The first that is not passed over -/

theorem exists_first_cons {α : Type} {Passed Found : α → Prop} {a : α} {l : List α} :
    (∃ before x after, a :: l = before ++ x :: after ∧ (∀ y ∈ before, Passed y) ∧ Found x) ↔
      Found a ∨ Passed a ∧
        ∃ before x after, l = before ++ x :: after ∧ (∀ y ∈ before, Passed y) ∧ Found x := by
  constructor
  · rintro ⟨before, x, after, hl, hbefore, hx⟩
    cases before with
    | nil =>
      obtain ⟨rfl, -⟩ := List.cons_eq_cons.1 hl
      exact Or.inl hx
    | cons b before =>
      obtain ⟨rfl, rfl⟩ := List.cons_eq_cons.1 hl
      obtain ⟨hb, hbefore⟩ := List.forall_mem_cons.1 hbefore
      exact Or.inr ⟨hb, before, x, after, rfl, hbefore, hx⟩
  · rintro (ha | ⟨ha, before, x, after, rfl, hbefore, hx⟩)
    · exact ⟨[], a, l, rfl, by simp, ha⟩
    · exact ⟨a :: before, x, after, rfl, List.forall_mem_cons.2 ⟨ha, hbefore⟩, hx⟩

theorem exists_first_of_not_forall {α : Type} {Passed : α → Prop} {l : List α}
    (h : ¬ ∀ x ∈ l, Passed x) :
    ∃ before x after, l = before ++ x :: after ∧ (∀ y ∈ before, Passed y) ∧ ¬ Passed x := by
  induction l with
  | nil => exact absurd (by simp) h
  | cons a l ih =>
    rw [exists_first_cons]
    by_cases ha : Passed a
    · refine Or.inr ⟨ha, ih ?_⟩
      intro hl
      exact h (List.forall_mem_cons.2 ⟨ha, hl⟩)
    · exact Or.inl ha

/-! ### Causes -/

/-- What a rule finds wrong with a node, and the error that it gives for it. -/
inductive Rule.Refuses (s : Site) : Rule → MigrationError → Prop where
  /-- Of the extensions about items the first that is no text is told. -/
  | itemText {before after : List String} {key : String} :
    Rule.itemSource.keys = before ++ key :: after → (∀ other ∈ before, s.node.TextIfAny other) →
      ¬ s.node.TextIfAny key → Refuses s .itemSource (.invalidValue key s.place .string)
  | twoSources {expr url : String} :
    (∀ key ∈ Rule.itemSource.keys, s.node.TextIfAny key) →
      s.node.text? "x-fromData" = some expr → s.node.text? "x-fromUrl" = some url →
      Refuses s .itemSource (.conflictingSource s.place)
  | propOfExpression {expr prop : String} :
    (∀ key ∈ Rule.itemSource.keys, s.node.TextIfAny key) →
      s.node.text? "x-fromData" = some expr → s.node.text? "x-fromUrl" = none →
      s.node.text? "x-itemsProp" = some prop →
      Refuses s .itemSource
        (.unsupportedCombination (["x-fromData", "x-itemsProp"].filter s.node.has) s.place
          .itemsPropOfExpression)
  /-- An expression must not have interpolations in it, nor markers that become some. -/
  | template {expr : String} :
    (∀ key ∈ Rule.itemSource.keys, s.node.TextIfAny key) →
      s.node.text? "x-fromData" = some expr → s.node.text? "x-fromUrl" = none →
      s.node.text? "x-itemsProp" = none →
      (s.detector.detect expr .expression).classification = .template →
      Refuses s .itemSource (.invalidValue "x-fromData" s.place .plainExpression)
  | propWithoutUrl {prop : String} :
    (∀ key ∈ Rule.itemSource.keys, s.node.TextIfAny key) →
      s.node.text? "x-fromData" = none → s.node.text? "x-fromUrl" = none →
      s.node.text? "x-itemsProp" = some prop →
      Refuses s .itemSource
        (.unsupportedCombination (["x-itemsProp", "x-itemKey", "x-itemTitle"].filter s.node.has)
          s.place .itemsPropWithoutUrl)
  | outsideArray :
    (∀ key ∈ Rule.itemSource.keys, s.node.TextIfAny key) →
      s.node.text? "x-fromData" = none → s.node.text? "x-fromUrl" = none →
      s.node.text? "x-itemsProp" = none → s.isArray = false →
      Refuses s .itemSource
        (.unsupportedCombination (["x-itemKey", "x-itemTitle"].filter s.node.has) s.place
          .itemsOutsideArray)
  | display :
    ¬ s.node.TextIfAny "x-display" →
      Refuses s .display (.invalidValue "x-display" s.place .string)
  | condition :
    ¬ s.node.TextIfAny "x-if" → Refuses s .condition (.invalidValue "x-if" s.place .string)
  | props :
    (¬ ∀ v, s.node.get? "x-props" = some v → ∃ props, v = .obj props) →
      Refuses s .presentation (.invalidValue "x-props" s.place .object)
  | cols :
    (∀ v, s.node.get? "x-props" = some v → ∃ props, v = .obj props) →
      (¬ ∀ v, s.node.get? "x-cols" = some v → (∃ n, v = .num n) ∨ ∃ sizes, v = .obj sizes) →
      Refuses s .presentation (.invalidValue "x-cols" s.place .numberOrObject)

theorem Site.string_eq_error_iff {s : Site} {key : String} {e : MigrationError} :
    s.string key = .error e ↔ ¬ s.node.TextIfAny key ∧ e = .invalidValue key s.place .string := by
  by_cases htext : s.node.TextIfAny key
  · rw [string_eq_ok_iff.2 ⟨htext, rfl⟩]
    simp [htext]
  · have hnot (text : Option String) : s.string key ≠ .ok text := by
      intro hok
      exact htext (string_eq_ok_iff.1 hok).1
    unfold string at hnot ⊢
    split
    · rename_i habsent
      simp [habsent] at hnot
    · rename_i hstr
      simp [hstr] at hnot
    · simp [htext, invalid, eq_comm]

namespace Rule

variable {s : Site} {e : MigrationError}

theorem itemExtensions_eq_error_iff :
    itemExtensions s = .error e ↔
      ∃ before key after, itemSource.keys = before ++ key :: after ∧
        (∀ other ∈ before, s.node.TextIfAny other) ∧
          ¬ s.node.TextIfAny key ∧ e = .invalidValue key s.place .string := by
  rw [show itemSource.keys
    = ["x-fromData", "x-fromUrl", "x-itemsProp", "x-itemKey", "x-itemTitle"] from rfl]
  simp only [itemExtensions, bind_eq_error_iff, Site.string_eq_error_iff, Site.string_eq_ok_iff,
    exists_first_cons, pure, Except.pure]
  simp

theorem error_applyEdits_of_error
    {edit : Site → LayoutNode → Except MigrationError LayoutNode}
    {rest : List (Site → LayoutNode → Except MigrationError LayoutNode)} {layout : LayoutNode}
    (h : edit s layout = .error e) : (applyEdits s (edit :: rest) layout).error = some e := by
  rw [applyEdits, h]

/-- Where the extensions about items are texts, their rule fails as the source of the items does. -/
theorem applyItemSource_eq_error (htexts : ∀ key ∈ itemSource.keys, s.node.TextIfAny key)
    (h : itemOrigin s ⟨s.node.text? "x-fromData", s.node.text? "x-fromUrl",
      s.node.text? "x-itemsProp", s.node.text? "x-itemKey", s.node.text? "x-itemTitle"⟩ = .error e)
    (layout : LayoutNode) : applyItemSource s layout = .error e := by
  refine bind_eq_error_iff.2 (Or.inr ⟨_, itemExtensions_eq_ok_iff.2 ⟨htexts, rfl⟩, ?_⟩)
  exact bind_eq_error_iff.2 (Or.inl h)

namespace Refuses

variable {rule : Rule}

/-- A rule fails with the error of its cause, whatever layout it edits. -/
theorem error_apply (h : rule.Refuses s e) (layout : LayoutNode) :
    (rule.apply s layout).error = some e := by
  cases h with
  | itemText hkeys hbefore hkey =>
    apply error_applyEdits_of_error
    refine bind_eq_error_iff.2 (Or.inl ?_)
    exact itemExtensions_eq_error_iff.2 ⟨_, _, _, hkeys, hbefore, hkey, rfl⟩
  | twoSources htexts hdata hurl =>
    apply error_applyEdits_of_error
    apply applyItemSource_eq_error htexts
    simp [itemOrigin, hdata, hurl]
  | propOfExpression htexts hdata hurl hprop =>
    apply error_applyEdits_of_error
    apply applyItemSource_eq_error htexts
    simp [itemOrigin, hdata, hurl, hprop, Site.unsupported]
  | template htexts hdata hurl hprop htemplate =>
    apply error_applyEdits_of_error
    apply applyItemSource_eq_error htexts
    simp [itemOrigin, hdata, hurl, hprop, htemplate, Site.invalid]
  | propWithoutUrl htexts hdata hurl hprop =>
    apply error_applyEdits_of_error
    apply applyItemSource_eq_error htexts
    simp [itemOrigin, hdata, hurl, hprop, Site.unsupported]
  | outsideArray htexts hdata hurl hprop harray =>
    apply error_applyEdits_of_error
    apply applyItemSource_eq_error htexts
    simp [itemOrigin, hdata, hurl, hprop, harray, Site.unsupported]
  | display htext =>
    apply error_applyEdits_of_error
    exact bind_eq_error_iff.2 (Or.inl (Site.string_eq_error_iff.2 ⟨htext, rfl⟩))
  | condition htext =>
    apply error_applyEdits_of_error
    exact bind_eq_error_iff.2 (Or.inl (Site.string_eq_error_iff.2 ⟨htext, rfl⟩))
  | props hprops =>
    apply error_applyEdits_of_error
    unfold applyProps
    split
    · rename_i habsent
      simp [habsent] at hprops
    · rename_i hobj
      simp [hobj] at hprops
    · rfl
  | cols hprops hcols =>
    obtain ⟨out, hout⟩ : ∃ out, applyProps s layout = .ok out := exists_applyProps_iff.2 hprops
    rw [apply, edits, applyEdits, hout]
    apply error_applyEdits_of_error
    unfold applyCols
    split
    · rename_i habsent
      simp [habsent] at hcols
    · rename_i hnum
      simp [hnum] at hcols
    · rename_i hobj
      simp [hobj] at hcols
    · rfl

theorem not_satisfied (h : rule.Refuses s e) : ¬ rule.Satisfied s.detector s.node := by
  rw [← error_apply_eq_none_iff {}, h.error_apply]
  exact Option.some_ne_none e

end Refuses

/-- A node that does not satisfy a rule is refused for some cause. -/
theorem exists_refuses {rule : Rule} (h : ¬ rule.Satisfied s.detector s.node) :
    ∃ e, rule.Refuses s e := by
  cases rule with
  | itemSource =>
    by_cases htexts : ∀ key ∈ itemSource.keys, s.node.TextIfAny key
    · -- the checks in the order in which they are made
      cases hdata : s.node.text? "x-fromData" with
      | some expr =>
        cases hurl : s.node.text? "x-fromUrl" with
        | some url => exact ⟨_, .twoSources htexts hdata hurl⟩
        | none =>
          cases hprop : s.node.text? "x-itemsProp" with
          | some prop => exact ⟨_, .propOfExpression htexts hdata hurl hprop⟩
          | none =>
            by_cases htemplate : (s.detector.detect expr .expression).classification = .template
            · exact ⟨_, .template htexts hdata hurl hprop htemplate⟩
            · exact absurd ⟨htexts, by simp [hurl], by simp [hprop], by simp [hdata],
                by simpa [hdata] using htemplate⟩ h
      | none =>
        cases hurl : s.node.text? "x-fromUrl" with
        | some url =>
          exact absurd ⟨htexts, by simp [hdata], by simp [hurl], by simp [hurl], by simp [hdata]⟩ h
        | none =>
          cases hprop : s.node.text? "x-itemsProp" with
          | some prop => exact ⟨_, .propWithoutUrl htexts hdata hurl hprop⟩
          | none =>
            cases harray : s.isArray with
            | false => exact ⟨_, .outsideArray htexts hdata hurl hprop harray⟩
            | true =>
              exact absurd ⟨htexts, by simp [hdata], by simp [hprop], fun _ _ => harray,
                by simp [hdata]⟩ h
    · obtain ⟨before, key, after, hkeys, hbefore, hkey⟩ := exists_first_of_not_forall htexts
      exact ⟨_, .itemText hkeys hbefore hkey⟩
  | display => exact ⟨_, .display h⟩
  | condition => exact ⟨_, .condition h⟩
  | presentation =>
    by_cases hprops : ∀ v, s.node.get? "x-props" = some v → ∃ props, v = .obj props
    · refine ⟨_, .cols hprops ?_⟩
      intro hcols
      exact h ⟨hprops, hcols⟩
    · exact ⟨_, .props hprops⟩

/-- The error of a rule is that of the one cause for which it refuses the node. -/
theorem error_apply_eq_some_iff {rule : Rule} (layout : LayoutNode) :
    (rule.apply s layout).error = some e ↔ rule.Refuses s e := by
  constructor
  · intro herror
    have hnot : ¬ rule.Satisfied s.detector s.node := by
      rw [← error_apply_eq_none_iff layout, herror]
      exact Option.some_ne_none e
    obtain ⟨cause, hcause⟩ := exists_refuses hnot
    obtain rfl : cause = e := Option.some.inj ((hcause.error_apply layout).symm.trans herror)
    exact hcause
  · intro hrefuses
    exact hrefuses.error_apply layout

end Rule

namespace Table

variable {s : Site} {e : MigrationError}

/-- Those rules that claim a key of the node fail for the first of them that is not satisfied. -/
theorem applyRules_eq_error_iff {rules : List Rule} (layout : LayoutNode) :
    (applyRules s (rules.filter (fun r => r.keys.any s.node.has)) layout).2 = .error e ↔
      ∃ before rule after, rules = before ++ rule :: after ∧
        (∀ other ∈ before, other.keys.any s.node.has = true →
          other.Satisfied s.detector s.node) ∧
        rule.keys.any s.node.has = true ∧ rule.Refuses s e := by
  induction rules generalizing layout with
  | nil => simp [applyRules]
  | cons rule rest ih =>
    rw [exists_first_cons]
    by_cases hclaims : rule.keys.any s.node.has = true
    · rw [List.filter_cons, if_pos hclaims, applyRules]
      cases hedited : rule.apply s layout with
      | mk layout' error =>
        have herror : (rule.apply s layout).error = error := by rw [hedited]
        cases error with
        | some cause =>
          -- the rule is refused, so that no later one is tried
          have hrefuses : rule.Refuses s cause := (Rule.error_apply_eq_some_iff layout).1 herror
          have hcause : rule.Refuses s e ↔ cause = e := by
            rw [← Rule.error_apply_eq_some_iff layout, herror, Option.some.injEq]
          simp [hclaims, hcause, hrefuses.not_satisfied]
        | none =>
          have hsatisfied : rule.Satisfied s.detector s.node :=
            (Rule.error_apply_eq_none_iff layout).1 herror
          have hnot : ¬ rule.Refuses s e := fun h => h.not_satisfied hsatisfied
          simpa [hclaims, hsatisfied, hnot] using ih layout'
    · rw [List.filter_cons, if_neg hclaims, ih layout]
      simp [hclaims]

theorem mem_consumed_iff_exists {table : Table} {node : Members} {key : String} :
    key ∈ table.consumed node ↔
      ∃ rule ∈ table.rules, key ∈ rule.keys ∧ node.has key = true := by
  simp only [consumed, recognizes, List.mem_filter, List.any_eq_true, List.contains_iff_mem,
    ← Members.has_iff_mem_keys]
  constructor
  · rintro ⟨hhas, rule, hrule, hkey⟩
    exact ⟨rule, hrule, hkey, hhas⟩
  · rintro ⟨rule, hrule, hkey, hhas⟩
    exact ⟨hhas, rule, hrule, hkey⟩

theorem consumed_eq_nil_iff (table : Table) (node : Members) :
    table.consumed node = [] ↔ ∀ key, node.has key = true → table.recognizes key = false := by
  rw [consumed, List.filter_eq_nil_iff]
  simp only [Members.has_iff_mem_keys, Bool.not_eq_true]

theorem consumed_ne_nil_iff (table : Table) (node : Members) :
    table.consumed node ≠ [] ↔ ∃ key, node.has key = true ∧ table.recognizes key = true := by
  rw [ne_eq, consumed_eq_nil_iff]
  simp

/-- The claimed keys in their order. -/
theorem pairwise_mergeSort_consumed (table : Table) (node : Members) :
    ((table.consumed node).mergeSort (fun a b => decide (a ≤ b))).Pairwise (· ≤ ·) := by
  have htrans : ∀ a b c : String, decide (a ≤ b) = true → decide (b ≤ c) = true →
      decide (a ≤ c) = true := by
    intro a b c hab hbc
    exact decide_eq_true (String.le_trans (of_decide_eq_true hab) (of_decide_eq_true hbc))
  have htotal : ∀ a b : String, (decide (a ≤ b) || decide (b ≤ a)) = true := by
    intro a b
    simpa using String.le_total a b
  refine (List.pairwise_mergeSort htrans htotal _).imp ?_
  intro a b hab
  exact of_decide_eq_true hab

/-- Without a claimed key there is nothing to map. With one the node must not have a layout, and
    every rule that claims a key must be satisfied; otherwise the error is that of the first rule
    that is not. -/
theorem refuses_map (table : Table) (s : Site) :
    ((∀ key, s.node.has key = true → table.recognizes key = false) →
      (table.map s).result = .ok { layout := none, consumed := [] }) ∧
    ((∃ key, s.node.has key = true ∧ table.recognizes key = true) →
      (s.node.has "layout" = true →
        ∃ keys : List String,
          (table.map s).result
            = .error (.unsupportedCombination (keys ++ ["layout"]) s.place .layoutPresent) ∧
          keys.Perm (s.node.keys.filter table.recognizes) ∧ keys.Pairwise (· ≤ ·)) ∧
      (s.node.has "layout" = false →
        ((∃ mapped, (table.map s).result = .ok mapped) ↔
          ∀ rule ∈ table.rules, rule.keys.any s.node.has = true →
            rule.Satisfied s.detector s.node) ∧
        ∀ e, (table.map s).result = .error e ↔
          ∃ before rule after, table.rules = before ++ rule :: after ∧
            (∀ other ∈ before, other.keys.any s.node.has = true →
              other.Satisfied s.detector s.node) ∧
            rule.keys.any s.node.has = true ∧ rule.Refuses s e ∧
              ∀ layout, (rule.apply s layout).error = some e)) := by
  refine ⟨?_, ?_⟩
  · intro hnone
    exact result_map_of_unclaimed ((consumed_eq_nil_iff table s.node).2 hnone)
  · intro hclaimed
    have hconsumed : table.consumed s.node ≠ [] := (consumed_ne_nil_iff table s.node).2 hclaimed
    refine ⟨?_, ?_⟩
    · intro hlayout
      exact ⟨_, result_map_of_layout hconsumed hlayout, List.mergeSort_perm _ _,
        pairwise_mergeSort_consumed table s.node⟩
    · intro hlayout
      refine ⟨?_, ?_⟩
      · rw [exists_mapped_iff, or_iff_right hconsumed, hlayout, applicable]
        simp
      · intro e
        rw [result_map_of_rules hconsumed hlayout, map_eq_error_iff, applicable,
          applyRules_eq_error_iff]
        constructor
        · rintro ⟨before, rule, after, hrules, hbefore, hclaims, hrefuses⟩
          exact ⟨before, rule, after, hrules, hbefore, hclaims, hrefuses, hrefuses.error_apply⟩
        · rintro ⟨before, rule, after, hrules, hbefore, hclaims, hrefuses, -⟩
          exact ⟨before, rule, after, hrules, hbefore, hclaims, hrefuses⟩

/-- A list with a width, two sources of items and a key for them that is no text. -/
def refusedSite : Site where
  path := "/properties/a"
  node := [("type", .str "array"), ("x-cols", .num (.int 6)), ("x-itemKey", .num (.int 3)),
    ("x-fromUrl", .str "u"), ("x-fromData", .str "\x7bcontext.items\x7d")]
  detector := .ofMin 2

def refusingTable : Table := ⟨[.condition, .presentation, .itemSource, .display, .itemSource]⟩

theorem refuses_map_refusedSite :
    refusingTable.recognizes "x-itemKey" = true ∧ refusedSite.node.has "x-itemKey" = true ∧
      refusedSite.node.has "layout" = false ∧
      (refusingTable.map refusedSite).result
        = .error (.invalidValue "x-itemKey" "#/properties/a" .string) := by
  refine ⟨by decide, by decide, by decide, ?_⟩
  have hcause : Rule.itemSource.Refuses refusedSite
      (.invalidValue "x-itemKey" "#/properties/a" .string) := by
    rw [← Rule.error_apply_eq_some_iff {}]
    decide
  have hcols : Rule.presentation.Satisfied refusedSite.detector refusedSite.node := by
    rw [← Rule.error_apply_eq_none_iff {}]
    decide
  have hclaimed : ∃ key, refusedSite.node.has key = true ∧ refusingTable.recognizes key = true :=
    ⟨"x-itemKey", by decide, by decide⟩
  refine ((((refuses_map refusingTable refusedSite).2 hclaimed).2 (by decide)).2 _).2
    ⟨[.condition, .presentation], .itemSource, [.display, .itemSource], rfl, ?_, by decide, hcause,
      hcause.error_apply⟩
  intro other hother hclaims
  rcases List.mem_cons.1 hother with rfl | hother
  · exact absurd hclaims (by decide)
  · obtain rfl := List.mem_singleton.1 hother
    exact hcols

end Table

end Relayout
