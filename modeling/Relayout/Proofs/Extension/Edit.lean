/-
  Relayout/Proofs/Extension/Edit.lean
  ===================================
  **What an edit can do to a layout.**

  `Rule.Edit` lists what one edit of a rule can make of a layout, with all that it takes from
  the node.  The layout of a node comes from no layout by such edits (`Table.editsTo_of_layout?`),
  so what holds of every layout is shown edit by edit.  `LayoutNode.DrawnFrom` tells where the
  parts of a layout come from.
-/
import Mathlib.Logic.Relation
import Relayout.Proofs.Extension.Satisfied

namespace Relayout

/-- The second layout is what an edit makes of the first. -/
inductive Rule.Edit (s : Site) (layout : LayoutNode) : LayoutNode → Prop where
  | none : Edit s layout layout
  /-- The layout becomes a select over a source. -/
  | select {x : ItemExtensions} {origin : ItemOrigin} :
    itemExtensions s = .ok x → itemOrigin s x = .ok (some origin) →
      Edit s layout { layout with
        comp := some "select"
        getItems := some ⟨origin, x.itemKey, x.itemTitle⟩ }
  /-- The entries of a list are shown by a key and a title. -/
  | entries {x : ItemExtensions} :
    itemExtensions s = .ok x → itemOrigin s x = .ok Option.none →
      Edit s layout { layout with itemKey := x.itemKey, itemTitle := x.itemTitle }
  | comp {comp : String} :
    s.node.get? "x-display" = some (.str comp) → Edit s layout { layout with comp := some comp }
  | cond {cond : String} :
    s.node.get? "x-if" = some (.str cond) →
      Edit s layout { layout with
        cond := some (descriptor (s.detector.detect cond .expression)) }
  | props {props : Members} :
    s.node.get? "x-props" = some (.obj props) → Edit s layout { layout with props := some props }
  | cols {cols : Json} :
    s.node.get? "x-cols" = some cols → ((∃ n, cols = .num n) ∨ ∃ sizes, cols = .obj sizes) →
      Edit s layout { layout with cols := some cols }

theorem Members.get?_eq_of_text?_eq_some {ms : Members} {key text : String}
    (h : ms.text? key = some text) : ms.get? key = some (.str text) := by
  obtain ⟨v, hget, hv⟩ := Option.bind_eq_some_iff.1 h
  cases v with
  | str s => rw [hget, Option.some.inj hv]
  | null | bool | num | arr | obj => cases hv

namespace Rule

variable {s : Site}

/-- A text that a site reads is the value under its key. -/
theorem get?_of_string_eq_ok {key text : String} (h : s.string key = .ok (some text)) :
    s.node.get? key = some (.str text) :=
  Members.get?_eq_of_text?_eq_some (Site.string_eq_ok_iff.1 h).2.symm

theorem edit_of_mem_edits {rule : Rule}
    {edit : Site → LayoutNode → Except MigrationError LayoutNode} (hedit : edit ∈ rule.edits)
    {layout out : LayoutNode} (h : edit s layout = .ok out) : Edit s layout out := by
  cases rule with
  | itemSource =>
    obtain rfl := List.mem_singleton.1 hedit
    obtain ⟨x, hx, h⟩ := bind_eq_ok_iff.1 h
    obtain ⟨origin, horigin, h⟩ := bind_eq_ok_iff.1 h
    cases origin with
    | some found =>
      cases h
      exact .select hx horigin
    | none =>
      cases h
      exact .entries hx horigin
  | display =>
    obtain rfl := List.mem_singleton.1 hedit
    obtain ⟨comp, hcomp, h⟩ := bind_eq_ok_iff.1 h
    cases comp with
    | some found =>
      cases h
      exact .comp (get?_of_string_eq_ok hcomp)
    | none =>
      cases h
      exact .none
  | condition =>
    obtain rfl := List.mem_singleton.1 hedit
    obtain ⟨cond, hcond, h⟩ := bind_eq_ok_iff.1 h
    cases cond with
    | some found =>
      cases h
      exact .cond (get?_of_string_eq_ok hcond)
    | none =>
      cases h
      exact .none
  | presentation =>
    have hcases : edit = applyProps ∨ edit = applyCols := by simpa [edits] using hedit
    rcases hcases with rfl | rfl
    · unfold applyProps at h
      split at h
      · cases h
        exact .none
      · rename_i props hget
        cases h
        exact .props hget
      · cases h
    · unfold applyCols at h
      split at h
      · cases h
        exact .none
      · rename_i n hget
        cases h
        exact .cols hget (Or.inl ⟨n, rfl⟩)
      · rename_i sizes hget
        cases h
        exact .cols hget (Or.inr ⟨sizes, rfl⟩)
      · cases h

/-- A layout comes from another by edits. -/
abbrev EditsTo (s : Site) : LayoutNode → LayoutNode → Prop := Relation.ReflTransGen (Edit s)

theorem editsTo_applyEdits {rule : Rule}
    {edits : List (Site → LayoutNode → Except MigrationError LayoutNode)}
    (hedits : edits ⊆ rule.edits) (layout : LayoutNode) :
    EditsTo s layout (applyEdits s edits layout).layout := by
  induction edits generalizing layout with
  | nil => exact .refl
  | cons edit rest ih =>
    obtain ⟨hedit, hrest⟩ := List.cons_subset.1 hedits
    rw [applyEdits]
    cases hout : edit s layout with
    | ok out => exact .head (edit_of_mem_edits hedit hout) (ih hrest out)
    | error e => exact .refl

end Rule

namespace Table

variable {s : Site}

theorem editsTo_of_applyRules {rules : List Rule} {layout out : LayoutNode}
    (h : (applyRules s rules layout).2 = .ok out) : Rule.EditsTo s layout out := by
  induction rules generalizing layout with
  | nil =>
    cases h
    exact .refl
  | cons rule rest ih =>
    have happlied : Rule.EditsTo s layout (rule.apply s layout).layout :=
      Rule.editsTo_applyEdits (List.Subset.refl _) layout
    rw [applyRules] at h
    cases hedited : rule.apply s layout with
    | mk layout' error =>
      rw [hedited] at h happlied
      cases error with
      | none => exact happlied.trans (ih h)
      | some e => cases h

/-- The layout of a node comes from no layout by edits. -/
theorem editsTo_of_layout? {table : Table} {layout : Layout} (h : table.layout? s = some layout) :
    ∃ node, Rule.EditsTo s {} node ∧ node.finalize = some layout := by
  rw [layout?_eq] at h
  split at h
  · cases h
  · obtain ⟨node, hnode, hfinal⟩ := Option.bind_eq_some_iff.1 h
    cases hrules : (applyRules s (table.applicable s.node) {}).2 with
    | error e =>
      rw [hrules] at hnode
      cases hnode
    | ok out =>
      rw [hrules] at hnode
      cases hnode
      exact ⟨node, editsTo_of_applyRules hrules, hfinal⟩

end Table

/-- A layout is written as the name of its component, or in full. -/
theorem LayoutNode.of_finalize_eq_some {node : LayoutNode} {layout : Layout}
    (h : node.finalize = some layout) :
    (∃ comp, node.comp = some comp ∧ layout = .comp comp) ∨ layout = .node node := by
  unfold LayoutNode.finalize at h
  split at h
  · cases h
  · split at h
    · obtain ⟨comp, hcomp, heq⟩ := Option.map_eq_some_iff.1 h
      exact Or.inl ⟨comp, hcomp, heq.symm⟩
    · exact Or.inr (Option.some.inj h).symm

/-! ### Where a layout comes from -/

/-- What a layout holds comes from a site: that it names a component from some text of the
    node, the expressions of its URLs from a detector, its properties and width from the node. -/
structure LayoutNode.DrawnFrom (s : Site) (node : LayoutNode) : Prop where
  comp : node.comp ≠ none → ∃ key text, s.node.get? key = some (.str text)
  url : ∀ source descriptor itemsProp, node.getItems = some source →
    source.origin = .url descriptor itemsProp →
      ∃ raw, descriptor.expr = (s.detector.detect raw .url).expr
  props : ∀ props, node.props = some props → s.node.get? "x-props" = some (.obj props)
  cols : ∀ cols, node.cols = some cols → s.node.get? "x-cols" = some cols ∧
    ((∃ n, cols = .num n) ∨ ∃ sizes, cols = .obj sizes)

namespace Rule

variable {s : Site}

theorem expr_descriptor (d : Template.Detected) : (descriptor d).expr = d.expr := by
  unfold descriptor
  split <;> rfl

/-- A source of items is written in a text of the node: an expression as a detector leaves it,
    or the descriptor of a URL. -/
theorem of_itemOrigin_eq_some {x : ItemExtensions} {origin : ItemOrigin}
    (h : itemOrigin s x = .ok (some origin)) :
    (∃ expr, x.fromData = some expr ∧
      origin = .expr (s.detector.detect expr .expression).expr) ∨
    ∃ url, x.fromUrl = some url ∧
      origin = .url (descriptor (s.detector.detect url .url)) x.itemsProp := by
  obtain ⟨fromData, fromUrl, itemsProp, itemKey, itemTitle⟩ := x
  unfold itemOrigin at h
  split at h
  · cases h
  · rename_i expr hdata hurl
    simp only at hdata
    split at h
    · cases h
    · simp only at h
      split at h
      · cases h
      · cases h
        exact Or.inl ⟨expr, hdata, rfl⟩
  · rename_i url hdata hurl
    cases h
    exact Or.inr ⟨url, hurl, rfl⟩
  · split at h
    · cases h
    · split at h <;> cases h

theorem Edit.drawnFrom {layout out : LayoutNode} (h : Edit s layout out)
    (hlayout : layout.DrawnFrom s) : out.DrawnFrom s := by
  obtain ⟨hcomp, hurl, hprops, hcols⟩ := hlayout
  cases h with
  | none => exact ⟨hcomp, hurl, hprops, hcols⟩
  | @select x origin hx horigin =>
    obtain rfl := (itemExtensions_eq_ok_iff.1 hx).2
    refine ⟨fun _ => ?_, ?_, hprops, hcols⟩
    · rcases of_itemOrigin_eq_some horigin with ⟨text, htext, -⟩ | ⟨text, htext, -⟩
      · exact ⟨_, text, Members.get?_eq_of_text?_eq_some htext⟩
      · exact ⟨_, text, Members.get?_eq_of_text?_eq_some htext⟩
    · rintro _ _ _ ⟨⟩ rfl
      rcases of_itemOrigin_eq_some horigin with ⟨text, -, heq⟩ | ⟨text, -, heq⟩
      · cases heq
      · cases heq
        exact ⟨text, expr_descriptor _⟩
  | entries => exact ⟨hcomp, hurl, hprops, hcols⟩
  | comp hget => exact ⟨fun _ => ⟨_, _, hget⟩, hurl, hprops, hcols⟩
  | cond => exact ⟨hcomp, hurl, hprops, hcols⟩
  | props hget =>
    refine ⟨hcomp, hurl, ?_, hcols⟩
    rintro _ ⟨⟩
    exact hget
  | cols hget hkind =>
    refine ⟨hcomp, hurl, hprops, ?_⟩
    rintro _ ⟨⟩
    exact ⟨hget, hkind⟩

theorem EditsTo.drawnFrom {layout out : LayoutNode} (h : EditsTo s layout out)
    (hlayout : layout.DrawnFrom s) : out.DrawnFrom s := by
  induction h with
  | refl => exact hlayout
  | tail _ hedit ih => exact hedit.drawnFrom ih

end Rule

/-- The layout of a node is drawn from it. -/
theorem Table.drawnFrom_of_layout? {table : Table} {s : Site} {layout : Layout}
    (h : table.layout? s = some layout) :
    ∃ node : LayoutNode, node.DrawnFrom s ∧ node.finalize = some layout := by
  obtain ⟨node, hedited, hfinal⟩ := editsTo_of_layout? h
  have hempty : LayoutNode.DrawnFrom s {} := by
    constructor
    · intro hcomp
      exact absurd rfl hcomp
    · intro source descriptor itemsProp hsource
      cases hsource
    · intro props hprops
      cases hprops
    · intro cols hcols
      cases hcols
  exact ⟨node, hedited.drawnFrom hempty, hfinal⟩

end Relayout
