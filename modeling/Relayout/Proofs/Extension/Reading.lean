/-
  Relayout/Proofs/Extension/Reading.lean
  ======================================
  **What the rules of a table read of a node.**

  Rules see which keys a node has, the values of the keys that they claim, and whether the node
  describes a list.  Two nodes for which these are the same cannot be told apart by a table
  (`Table.ReadsAlike.map_eq`).  Nodes that vary below a key that no rule claims are such nodes
  (`Json.Varies.readsAlike`): of `type` only the texts at its top are read.
-/
import Relayout.Extension.Table
import Relayout.Proofs.Json.Variation

namespace Relayout

/-- Two nodes in which the rules of a table read the same. -/
structure Table.ReadsAlike (table : Table) (ms ns : Members) : Prop where
  keys : ns.keys = ms.keys
  claimed : ∀ key, table.recognizes key = true → ns.get? key = ms.get? key
  isArray : ∀ path detector, Site.isArray ⟨path, ns, detector⟩ = Site.isArray ⟨path, ms, detector⟩

namespace Rule

variable {ms ns : Members} {path : String} {detector : Template.Detector}

theorem string_congr {key : String} (h : ns.get? key = ms.get? key) :
    Site.string ⟨path, ns, detector⟩ key = Site.string ⟨path, ms, detector⟩ key := by
  rw [Site.string, Site.string]
  simp only [h]
  rfl

section Edits

variable {rule : Rule} (hhas : ns.has = ms.has)
  (hkeys : ∀ key ∈ rule.keys, ns.get? key = ms.get? key)
  (harray : Site.isArray ⟨path, ns, detector⟩ = Site.isArray ⟨path, ms, detector⟩)

include hhas hkeys harray

theorem edit_congr {edit : Site → LayoutNode → Except MigrationError LayoutNode}
    (hedit : edit ∈ rule.edits) (layout : LayoutNode) :
    edit ⟨path, ns, detector⟩ layout = edit ⟨path, ms, detector⟩ layout := by
  have hstring : ∀ key ∈ rule.keys,
      Site.string ⟨path, ns, detector⟩ key = Site.string ⟨path, ms, detector⟩ key :=
    fun key hkey => string_congr (hkeys key hkey)
  cases rule with
  | itemSource =>
    obtain rfl := List.mem_singleton.1 hedit
    have hread : itemExtensions ⟨path, ns, detector⟩ = itemExtensions ⟨path, ms, detector⟩ := by
      simp only [itemExtensions, hstring _ (show "x-fromData" ∈ Rule.itemSource.keys by decide),
        hstring _ (show "x-fromUrl" ∈ Rule.itemSource.keys by decide),
        hstring _ (show "x-itemsProp" ∈ Rule.itemSource.keys by decide),
        hstring _ (show "x-itemKey" ∈ Rule.itemSource.keys by decide),
        hstring _ (show "x-itemTitle" ∈ Rule.itemSource.keys by decide)]
    have horigin (x : ItemExtensions) :
        itemOrigin ⟨path, ns, detector⟩ x = itemOrigin ⟨path, ms, detector⟩ x := by
      simp only [itemOrigin, Site.unsupported, hhas, harray]
      rfl
    simp only [applyItemSource, hread, horigin]
  | display =>
    obtain rfl := List.mem_singleton.1 hedit
    simp only [applyDisplay, hstring "x-display" List.mem_cons_self]
  | condition =>
    obtain rfl := List.mem_singleton.1 hedit
    simp only [applyCondition, hstring "x-if" List.mem_cons_self]
  | presentation =>
    rcases List.mem_cons.1 hedit with rfl | hcols
    · simp only [applyProps, hkeys "x-props" (by decide)]
      rfl
    · obtain rfl := List.mem_singleton.1 hcols
      simp only [applyCols, hkeys "x-cols" (by decide)]
      rfl

theorem apply_congr (layout : LayoutNode) :
    rule.apply ⟨path, ns, detector⟩ layout = rule.apply ⟨path, ms, detector⟩ layout := by
  have hedits {edits : List (Site → LayoutNode → Except MigrationError LayoutNode)}
      (hsubset : edits ⊆ rule.edits) (layout : LayoutNode) :
      applyEdits ⟨path, ns, detector⟩ edits layout
        = applyEdits ⟨path, ms, detector⟩ edits layout := by
    induction edits generalizing layout with
    | nil => rfl
    | cons edit rest ih =>
      obtain ⟨hedit, hrest⟩ := List.cons_subset.1 hsubset
      rw [applyEdits, applyEdits, edit_congr hhas hkeys harray hedit]
      cases edit ⟨path, ms, detector⟩ layout with
      | ok out => exact ih hrest out
      | error e => rfl
  exact hedits (List.Subset.refl _) layout

end Edits

end Rule

namespace Table.ReadsAlike

variable {table : Table} {ms ns : Members}

theorem has_eq (h : table.ReadsAlike ms ns) : ns.has = ms.has := by
  funext key
  rw [Bool.eq_iff_iff, Members.has_iff_mem_keys, Members.has_iff_mem_keys, h.keys]

theorem applyRules_eq (h : table.ReadsAlike ms ns) (path : String)
    (detector : Template.Detector) {rules : List Rule} (hrules : rules ⊆ table.rules)
    (layout : LayoutNode) :
    applyRules ⟨path, ns, detector⟩ rules layout
      = applyRules ⟨path, ms, detector⟩ rules layout := by
  induction rules generalizing layout with
  | nil => rfl
  | cons rule rest ih =>
    obtain ⟨hrule, hrest⟩ := List.cons_subset.1 hrules
    have hkeys : ∀ key ∈ rule.keys, ns.get? key = ms.get? key := by
      intro key hkey
      exact h.claimed key (List.any_eq_true.2 ⟨rule, hrule, by simpa using hkey⟩)
    rw [applyRules, applyRules, Rule.apply_congr h.has_eq hkeys (h.isArray path detector)]
    simp only [ih hrest]

/-- A table makes the same of two nodes in which it reads the same. -/
theorem map_eq (h : table.ReadsAlike ms ns) (path : String) (detector : Template.Detector) :
    table.map ⟨path, ns, detector⟩ = table.map ⟨path, ms, detector⟩ := by
  have happlicable : table.applicable ms ⊆ table.rules := List.filter_sublist.subset
  simp only [map, consumed, applicable, h.keys, h.has_eq] at happlicable ⊢
  rw [h.applyRules_eq path detector happlicable]
  rfl

end Table.ReadsAlike

namespace Json

variable {a b v w : Json} {name : String} {place : Place} {ms ns : Members}

theorem Varies.asString?_eq_none (h : Varies a b place v w) (hplace : place ≠ []) :
    v.asString? = none ∧ w.asString? = none := by
  cases h with
  | here => exact absurd rfl hplace
  | member => exact ⟨rfl, rfl⟩
  | element => exact ⟨rfl, rfl⟩

theorem Varies.keys_eq (h : Varies a b (name :: place) (.obj ms) (.obj ns)) : ns.keys = ms.keys :=
  Shape.obj.inj (h.shape_eq (List.cons_ne_nil _ _)).symm

theorem Varies.has_eq (h : Varies a b (name :: place) (.obj ms) (.obj ns)) (key : String) :
    ns.has key = ms.has key := by
  rw [Bool.eq_iff_iff, Members.has_iff_mem_keys, Members.has_iff_mem_keys, h.keys_eq]

/-- Whether a node describes a list is not decided two steps below its `type`. -/
theorem Varies.isArray_eq (h : Varies a b (name :: place) (.obj ms) (.obj ns))
    (hplace : place ≠ []) (htype : name = "type" → ∀ index, place ≠ [index]) (path : String)
    (detector : Template.Detector) :
    Site.isArray ⟨path, ns, detector⟩ = Site.isArray ⟨path, ms, detector⟩ := by
  obtain ⟨⟨x, y, hx, hy, hxy⟩, haside⟩ := h.child?
  have hitems := h.has_eq "items"
  by_cases hname : name = "type"
  · subst hname
    have hget : ms.get? "type" = some x := hx
    have hget' : ns.get? "type" = some y := hy
    simp only [Site.isArray, hget, hget', hitems]
    cases hxy with
    | here => exact absurd rfl hplace
    | member => rfl
    | @element pre post rest u u' hu =>
      have hrest : rest ≠ [] := by
        rintro rfl
        exact htype rfl _ rfl
      have htext {w : Json} (hw : w.asString? = none) : decide (w = .str "array") = false := by
        rw [decide_eq_false_iff_not]
        rintro rfl
        cases hw
      simp [htext (hu.asString?_eq_none hrest).1, htext (hu.asString?_eq_none hrest).2]
  · have hget : ns.get? "type" = ms.get? "type" := (haside "type" hname).symm
    simp only [Site.isArray, hget, hitems]

/-- Rules read the same in nodes that vary below a key that none of them claims. -/
theorem Varies.readsAlike {table : Table} (h : Varies a b (name :: place) (.obj ms) (.obj ns))
    (hclaimed : table.recognizes name = false) (hplace : place ≠ [])
    (htype : name = "type" → ∀ index, place ≠ [index]) : table.ReadsAlike ms ns where
  keys := h.keys_eq
  claimed := by
    intro key hkey
    have hne : name ≠ key := by
      rintro rfl
      rw [hclaimed] at hkey
      cases hkey
    exact (h.child?.2 key hne).symm
  isArray := h.isArray_eq hplace htype

end Json

end Relayout
