/-
  Relayout/Proofs/Extension/KeyOrder.lean
  =======================================
  **Rules do not see the order of keys.**

  A rule looks up the keys that it claims, so it makes of a sorted node what it makes of the
  node, with the objects sorted that it takes over as they are (`Rule.apply_sorted`).  The same
  then holds of a table: whether the extensions of a node can be mapped does not depend on the
  order of its keys, and neither does the layout, up to the order of keys inside of it.
-/
import Relayout.Proofs.Extension.Satisfied
import Relayout.Proofs.Json.KeyOrder
import Relayout.Proofs.Migration.WellFormed

namespace Relayout

/-- The same place with its members sorted. -/
def Site.sorted (s : Site) : Site := { s with node := s.node.sorted }

/-- A layout in which the objects that it takes over from the node are sorted. -/
def LayoutNode.sorted (node : LayoutNode) : LayoutNode :=
  { node with props := node.props.map Members.sorted, cols := node.cols.map Json.sorted }

/-- A written layout in which these objects are sorted. -/
def Layout.sorted : Layout → Layout
  | .comp name => .comp name
  | .node layout => .node layout.sorted

/-- What a rule leaves, with these objects sorted. -/
def Edited.sorted (edited : Edited) : Edited := { edited with layout := edited.layout.sorted }

/-! ### What rules look up -/

namespace Json

theorem sorted_eq_str_iff {v : Json} {text : String} : v.sorted = .str text ↔ v = .str text := by
  cases v with
  | obj ms => simp
  | arr xs => simp
  | null | bool | num | str => rfl

theorem asString?_sorted (v : Json) : v.sorted.asString? = v.asString? := by
  cases v <;> rfl

end Json

namespace Site

variable {s : Site} (hnode : s.node.keys.Nodup)

theorem unsupported_sorted (s : Site) : s.sorted.unsupported = s.unsupported := by
  have hhas : s.sorted.node.has = s.node.has := funext s.node.has_sorted
  funext keys reason
  simp only [unsupported, hhas]
  rfl

include hnode

theorem string_sorted (key : String) : s.sorted.string key = s.string key := by
  have hget : s.sorted.node.get? key = (s.node.get? key).map Json.sorted :=
    Members.get?_sorted hnode key
  rw [string, string, hget]
  cases s.node.get? key with
  | none => rfl
  | some v => cases v <;> rfl

theorem isArray_sorted : s.sorted.isArray = s.isArray := by
  have hget : s.sorted.node.get? "type" = (s.node.get? "type").map Json.sorted :=
    Members.get?_sorted hnode "type"
  have hitems : s.sorted.node.has "items" = s.node.has "items" := s.node.has_sorted "items"
  rw [isArray, isArray, hget]
  cases s.node.get? "type" with
  | none => exact hitems
  | some v =>
    cases v with
    | arr ts => simp [Json.sorted_eq_str_iff, List.any_map, Function.comp_def]
    | str text => rfl
    | null | bool | num | obj => exact hitems

end Site

namespace Rule

variable {s : Site} (hnode : s.node.keys.Nodup)

include hnode

theorem itemExtensions_sorted : itemExtensions s.sorted = itemExtensions s := by
  simp only [itemExtensions, Site.string_sorted hnode]

theorem itemOrigin_sorted (x : ItemExtensions) : itemOrigin s.sorted x = itemOrigin s x := by
  simp only [itemOrigin, Site.unsupported_sorted, Site.isArray_sorted hnode]
  rfl

/-- An edit makes of a sorted layout for a sorted node what it makes of the layout for the node. -/
theorem edit_sorted {rule : Rule}
    {edit : Site → LayoutNode → Except MigrationError LayoutNode} (hedit : edit ∈ rule.edits)
    (layout : LayoutNode) :
    edit s.sorted layout.sorted = (edit s layout).map LayoutNode.sorted := by
  have hget (key : String) : s.sorted.node.get? key = (s.node.get? key).map Json.sorted :=
    Members.get?_sorted hnode key
  cases rule with
  | itemSource =>
    obtain rfl := List.mem_singleton.1 hedit
    rw [applyItemSource, applyItemSource, itemExtensions_sorted hnode]
    cases itemExtensions s with
    | error e => rfl
    | ok x =>
      simp only [bind, Except.bind, itemOrigin_sorted hnode]
      rcases itemOrigin s x with e | - | origin <;> rfl
  | display =>
    obtain rfl := List.mem_singleton.1 hedit
    rw [applyDisplay, applyDisplay, Site.string_sorted hnode]
    rcases s.string "x-display" with e | - | comp <;> rfl
  | condition =>
    obtain rfl := List.mem_singleton.1 hedit
    rw [applyCondition, applyCondition, Site.string_sorted hnode]
    rcases s.string "x-if" with e | - | cond <;> rfl
  | presentation =>
    rcases List.mem_cons.1 hedit with rfl | hcols
    · rw [applyProps, applyProps, hget]
      rcases s.node.get? "x-props" with - | v
      · rfl
      · cases v <;> rfl
    · obtain rfl := List.mem_singleton.1 hcols
      rw [applyCols, applyCols, hget]
      rcases s.node.get? "x-cols" with - | v
      · rfl
      · cases v <;> rfl

theorem applyEdits_sorted {rule : Rule}
    {edits : List (Site → LayoutNode → Except MigrationError LayoutNode)}
    (hedits : edits ⊆ rule.edits) (layout : LayoutNode) :
    applyEdits s.sorted edits layout.sorted = (applyEdits s edits layout).sorted := by
  induction edits generalizing layout with
  | nil => rfl
  | cons edit rest ih =>
    obtain ⟨hedit, hrest⟩ := List.cons_subset.1 hedits
    rw [applyEdits, applyEdits, edit_sorted hnode hedit]
    cases edit s layout with
    | ok out => exact ih hrest out
    | error e => rfl

/-- A rule makes of a sorted layout for a sorted node what it makes of the layout for the node. -/
theorem apply_sorted (rule : Rule) (layout : LayoutNode) :
    rule.apply s.sorted layout.sorted = (rule.apply s layout).sorted :=
  applyEdits_sorted hnode (List.Subset.refl rule.edits) layout

theorem satisfied_sorted_iff (rule : Rule) :
    rule.Satisfied s.detector s.node.sorted ↔ rule.Satisfied s.detector s.node := by
  have happly : rule.apply s.sorted {} = (rule.apply s {}).sorted := apply_sorted hnode rule {}
  have hsorted : (rule.apply s.sorted {}).error = none ↔
      rule.Satisfied s.detector s.node.sorted := error_apply_eq_none_iff {}
  rw [happly] at hsorted
  exact hsorted.symm.trans (error_apply_eq_none_iff {})

end Rule

/-! ### Tables -/

theorem LayoutNode.finalize_sorted (layout : LayoutNode) :
    layout.sorted.finalize = layout.finalize.map Layout.sorted := by
  have hempty (layout : LayoutNode) : layout.sorted.isEmpty = layout.isEmpty := by
    obtain ⟨comp, getItems, label, cond, itemTitle, itemKey, props, cols⟩ := layout
    simp [isEmpty, sorted, LayoutNode.empty]
  have hcomp : layout.sorted.isCompOnly = layout.isCompOnly := by
    have hrest := hempty { layout with comp := none }
    simp only [isCompOnly, ← hrest]
    rfl
  rw [finalize, finalize, hempty, hcomp]
  split
  · rfl
  · split
    · simp [sorted, Layout.sorted, Function.comp_def]
    · rfl

namespace Table

variable {table : Table} {s : Site} (hnode : s.node.keys.Nodup)

theorem consumed_sorted_eq_nil_iff (table : Table) (node : Members) :
    table.consumed node.sorted = [] ↔ table.consumed node = [] := by
  simp only [consumed, List.filter_eq_nil_iff, node.keys_sorted_perm.mem_iff]

theorem applicable_sorted (table : Table) (node : Members) :
    table.applicable node.sorted = table.applicable node := by
  simp only [applicable, funext node.has_sorted]

include hnode

theorem applyRules_sorted (rules : List Rule) (layout : LayoutNode) :
    (applyRules s.sorted rules layout.sorted).2
      = (applyRules s rules layout).2.map LayoutNode.sorted := by
  induction rules generalizing layout with
  | nil => rfl
  | cons rule rules ih =>
    rw [applyRules, applyRules, Rule.apply_sorted hnode]
    rcases rule.apply s layout with ⟨out, - | e⟩
    · exact ih out
    · rfl

/-- Whether the extensions of a node can be mapped does not depend on the order of its keys. -/
theorem exists_mapped_sorted_iff :
    (∃ mapped, (table.map s.sorted).result = .ok mapped) ↔
      ∃ mapped, (table.map s).result = .ok mapped := by
  rw [exists_mapped_iff, exists_mapped_iff]
  simp only [Site.sorted, consumed_sorted_eq_nil_iff, applicable_sorted, Members.has_sorted,
    Rule.satisfied_sorted_iff hnode]

/-- The layout of a sorted node is the layout of the node, with the objects in it sorted. -/
theorem layout?_sorted : table.layout? s.sorted = (table.layout? s).map Layout.sorted := by
  rw [layout?_eq, layout?_eq]
  have hrules : (applyRules s.sorted (table.applicable s.node) {}).2
      = (applyRules s (table.applicable s.node) {}).2.map LayoutNode.sorted :=
    applyRules_sorted hnode (table.applicable s.node) {}
  have hconsumed := consumed_sorted_eq_nil_iff table s.node
  have happlicable := applicable_sorted table s.node
  have hlayout := s.node.has_sorted "layout"
  change (if table.consumed s.node.sorted = [] ∨ s.node.sorted.has "layout" = true then none
    else (applyRules s.sorted (table.applicable s.node.sorted) {}).2.toOption.bind _) = _
  rw [hlayout, happlicable, hrules]
  simp only [hconsumed]
  split
  · rfl
  · cases (applyRules s (table.applicable s.node) {}).2 with
    | ok layout => exact layout.finalize_sorted
    | error e => rfl

end Table

/-! ### Written layouts -/

theorem sortedMembers_optionalMember_map {α : Type} {key : String} {write : α → Json} {f : α → α}
    {v : Option α} (h : ∀ a, v = some a → (write (f a)).sorted = (write a).sorted) :
    Json.sortedMembers (optionalMember key write (v.map f))
      = Json.sortedMembers (optionalMember key write v) := by
  cases v with
  | none => rfl
  | some a => simp only [Option.map_some, optionalMember, Json.sortedMembers, h a rfl]

/-- A sorted layout is written as the layout is, up to the order of keys. -/
theorem LayoutNode.sorted_toJson_sorted {layout : LayoutNode} (h : layout.WellFormed) :
    layout.sorted.toJson.sorted = layout.toJson.sorted := by
  have hprops : Json.sortedMembers (optionalMember "props" .obj layout.sorted.props)
      = Json.sortedMembers (optionalMember "props" .obj layout.props) :=
    sortedMembers_optionalMember_map (fun props hsome => Json.sorted_sorted (h.props props hsome))
  have hcols : Json.sortedMembers (optionalMember "cols" id layout.sorted.cols)
      = Json.sortedMembers (optionalMember "cols" id layout.cols) :=
    sortedMembers_optionalMember_map (fun cols hsome => Json.sorted_sorted (h.cols cols hsome))
  apply congrArg Json.obj
  apply congrArg (List.insertionSort _)
  simp only [Json.sortedMembers_append, hprops, hcols]
  rfl

/-- The member for the layout of a sorted node is that of the node, up to the order of keys. -/
theorem Dialect.sorted_layoutMember_sorted (d : Dialect) {ms : Members}
    (hms : (Json.obj ms).WellFormed) :
    (d.layoutMember ms.sorted).sorted = (d.layoutMember ms).sorted := by
  have hlayout : d.table.layout? ⟨"", ms.sorted, d.detector⟩
      = (d.table.layout? ⟨"", ms, d.detector⟩).map Layout.sorted :=
    Table.layout?_sorted (s := ⟨"", ms, d.detector⟩) hms.1
  rw [layoutMember, layoutMember, hlayout]
  apply congrArg (List.insertionSort _)
  apply sortedMembers_optionalMember_map
  intro layout hsome
  rcases Table.comp_or_wellFormed_of_layout? hms hsome with ⟨comp, rfl⟩ | ⟨node, rfl, hwell⟩
  · rfl
  · exact LayoutNode.sorted_toJson_sorted hwell

end Relayout
