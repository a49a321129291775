/-
  Relayout/Proofs/Extension/Composition.lean
  ==========================================
  **What the rules of a table make of a node together.**

  Rules edit one layout, one after the other, and two of them name a component.  `Rule.composed`
  tells each part of the layout from the node and the list of rules without an order of edits: a
  part is there if its rule is in the list, and the component is the last that a rule of the list
  names.  One rule takes the layout of the rules before it to the layout with that rule
  (`Rule.apply_composed`), so a run takes it to that of all rules (`Table.applyRules_composed`),
  and what is composed depends on the set of rules alone, the component apart
  (`Table.composes_map`).
-/
import Relayout.Proofs.Extension.Refusal
import Relayout.Proofs.Template.Rewriting

namespace Relayout

namespace Rule

variable {s : Site}

/-! ### The parts of a layout -/

/-- Where the items of a node come from: an expression as it stands, or what is fetched from a
    URL. -/
def origin? (s : Site) : Option ItemOrigin :=
  match s.node.text? "x-fromData", s.node.text? "x-fromUrl" with
  | some expr, _ => some (.expr expr)
  | none, some url =>
    some (.url (descriptor (s.detector.detect url .url)) (s.node.text? "x-itemsProp"))
  | none, none => none

/-- The component that a rule names for a node. -/
def component? (s : Site) : Rule → Option String
  | .itemSource => (origin? s).map (fun _ => "select")
  | .display => s.node.text? "x-display"
  | .condition | .presentation => none

/-- The layout that rules compose for a node. -/
def composed (s : Site) (rules : List Rule) : LayoutNode where
  comp := (rules.filterMap (component? s)).getLast?
  getItems :=
    if .itemSource ∈ rules then
      (origin? s).map (fun origin =>
        ⟨origin, s.node.text? "x-itemKey", s.node.text? "x-itemTitle"⟩)
    else none
  cond :=
    if .condition ∈ rules then
      (s.node.text? "x-if").map (fun cond => descriptor (s.detector.detect cond .expression))
    else none
  itemTitle :=
    if .itemSource ∈ rules ∧ origin? s = none then s.node.text? "x-itemTitle" else none
  itemKey := if .itemSource ∈ rules ∧ origin? s = none then s.node.text? "x-itemKey" else none
  props :=
    if .presentation ∈ rules then (s.node.get? "x-props").bind Json.asMembers? else none
  cols := if .presentation ∈ rules then s.node.get? "x-cols" else none

/-! ### One rule -/

/-- What a rule that is satisfied makes of a layout. -/
def edited (s : Site) (layout : LayoutNode) : Rule → LayoutNode
  | .itemSource =>
    match origin? s with
    | some origin =>
      { layout with
        comp := some "select"
        getItems := some ⟨origin, s.node.text? "x-itemKey", s.node.text? "x-itemTitle"⟩ }
    | none =>
      { layout with
        itemKey := s.node.text? "x-itemKey", itemTitle := s.node.text? "x-itemTitle" }
  | .display => { layout with comp := (s.node.text? "x-display").or layout.comp }
  | .condition =>
    { layout with
      cond := ((s.node.text? "x-if").map
        (fun cond => descriptor (s.detector.detect cond .expression))).or layout.cond }
  | .presentation =>
    { layout with
      props := ((s.node.get? "x-props").bind Json.asMembers?).or layout.props
      cols := (s.node.get? "x-cols").or layout.cols }

/-- A node that satisfies the rule about items has a property of the items only beside a URL. -/
theorem ItemsFit.itemsProp_eq_none (h : ItemsFit s.detector s.node)
    (hurl : s.node.text? "x-fromUrl" = none) : s.node.text? "x-itemsProp" = none := by
  cases hprop : s.node.text? "x-itemsProp" with
  | none => rfl
  | some prop => exact absurd hurl (h.itemsProp (by simp [hprop]))

theorem itemOrigin_eq_ok (h : ItemsFit s.detector s.node) {itemKey itemTitle : Option String} :
    itemOrigin s ⟨s.node.text? "x-fromData", s.node.text? "x-fromUrl", s.node.text? "x-itemsProp",
      itemKey, itemTitle⟩ = .ok (origin? s) := by
  cases hdata : s.node.text? "x-fromData" with
  | some expr =>
    have hurl : s.node.text? "x-fromUrl" = none := by simpa [hdata] using h.oneSource
    have hplain := h.expression expr hdata
    -- no marker was promoted, so that the expression is as it was
    have hexpr := s.detector.expr_detect_of_ne_template hplain
    simp [itemOrigin, origin?, hdata, hurl, h.itemsProp_eq_none hurl, hplain, hexpr]
  | none =>
    cases hurl : s.node.text? "x-fromUrl" with
    | some url => simp [itemOrigin, origin?, hdata, hurl]
    | none =>
      have harray : s.isArray = true := h.list hdata hurl
      simp [itemOrigin, origin?, hdata, hurl, h.itemsProp_eq_none hurl, harray]

theorem applyItemSource_eq_ok (h : ItemsFit s.detector s.node) (layout : LayoutNode) :
    applyItemSource s layout = .ok (edited s layout .itemSource) := by
  refine bind_eq_ok_iff.2 ⟨_, itemExtensions_eq_ok_iff.2 ⟨h.texts, rfl⟩, ?_⟩
  refine bind_eq_ok_iff.2 ⟨_, itemOrigin_eq_ok h, ?_⟩
  rw [edited]
  cases origin? s <;> rfl

theorem applyProps_eq_ok (h : ∀ v, s.node.get? "x-props" = some v → ∃ props, v = .obj props)
    (layout : LayoutNode) : applyProps s layout
      = .ok { layout with
          props := ((s.node.get? "x-props").bind Json.asMembers?).or layout.props } := by
  unfold applyProps
  cases hget : s.node.get? "x-props" with
  | none => rfl
  | some v =>
    obtain ⟨props, rfl⟩ := h v hget
    rfl

theorem applyCols_eq_ok
    (h : ∀ v, s.node.get? "x-cols" = some v → (∃ n, v = .num n) ∨ ∃ sizes, v = .obj sizes)
    (layout : LayoutNode) :
    applyCols s layout = .ok { layout with cols := (s.node.get? "x-cols").or layout.cols } := by
  unfold applyCols
  cases hget : s.node.get? "x-cols" with
  | none => rfl
  | some v => obtain ⟨n, rfl⟩ | ⟨sizes, rfl⟩ := h v hget <;> rfl

theorem apply_eq_edited {rule : Rule} (h : rule.Satisfied s.detector s.node)
    (layout : LayoutNode) : rule.apply s layout = ⟨edited s layout rule, none⟩ := by
  cases rule with
  | itemSource => simp [apply, edits, applyEdits, applyItemSource_eq_ok h]
  | display =>
    have happly : applyDisplay s layout = .ok (edited s layout .display) := by
      refine bind_eq_ok_iff.2 ⟨_, Site.string_eq_ok_iff.2 ⟨h, rfl⟩, ?_⟩
      rw [edited]
      cases s.node.text? "x-display" <;> rfl
    simp [apply, edits, applyEdits, happly]
  | condition =>
    have happly : applyCondition s layout = .ok (edited s layout .condition) := by
      refine bind_eq_ok_iff.2 ⟨_, Site.string_eq_ok_iff.2 ⟨h, rfl⟩, ?_⟩
      rw [edited]
      cases s.node.text? "x-if" <;> rfl
    simp [apply, edits, applyEdits, happly]
  | presentation =>
    simp [apply, edits, applyEdits, applyProps_eq_ok h.1, applyCols_eq_ok h.2, edited]

/-- What a rule adds to a part of a layout that it alone sets. -/
theorem or_ite_self {α : Type} (x : Option α) (p : Prop) [Decidable p] :
    x.or (if p then x else none) = x := by
  cases x with
  | none => simp
  | some a => rfl

/-- A rule takes the layout of the rules before it to the layout with that rule. -/
theorem edited_composed (rules : List Rule) (rule : Rule) :
    edited s (composed s rules) rule = composed s (rules ++ [rule]) := by
  cases rule with
  | itemSource =>
    rw [edited]
    cases horigin : origin? s with
    | some origin => simp [composed, component?, horigin, List.getLast?_append]
    | none => simp [composed, component?, horigin]
  | display => simp [edited, composed, component?, List.getLast?_append]
  | condition => simp [edited, composed, component?, or_ite_self]
  | presentation => simp [edited, composed, component?, or_ite_self]

theorem apply_composed {rule : Rule} (h : rule.Satisfied s.detector s.node) (rules : List Rule) :
    rule.apply s (composed s rules) = ⟨composed s (rules ++ [rule]), none⟩ := by
  rw [apply_eq_edited h, edited_composed]

theorem composed_nil (s : Site) : composed s [] = {} := by simp [composed]

/-- No two rules claim one key. -/
theorem eq_of_mem_keys {rule other : Rule} {key : String} (hkey : key ∈ rule.keys)
    (hother : key ∈ other.keys) : other = rule := by
  have hunique : ∀ key ∈ rule.keys, key ∈ other.keys → other = rule := by
    cases rule <;> cases other <;> decide
  exact hunique key hkey hother

/-! ### What is there -/

theorem origin?_eq_none_iff :
    origin? s = none ↔ s.node.text? "x-fromData" = none ∧ s.node.text? "x-fromUrl" = none := by
  unfold origin?
  split
  · simp_all
  · simp_all
  · simp_all

theorem has_eq_false_of_not_claims {rule : Rule} {node : Members}
    (h : rule.keys.any node.has = false) {key : String} (hkey : key ∈ rule.keys) :
    node.has key = false := by
  rw [← Bool.not_eq_true]
  exact List.any_eq_false.1 h key hkey

/-- A rule that claims no key of the node adds nothing to the layout. -/
theorem composed_append_of_not_claims {rule : Rule} (h : rule.keys.any s.node.has = false)
    (rules : List Rule) : composed s (rules ++ [rule]) = composed s rules := by
  have hget {key : String} (hkey : key ∈ rule.keys) : s.node.get? key = none :=
    (Members.get?_eq_none_iff_has s.node key).2 (has_eq_false_of_not_claims h hkey)
  have htext {key : String} (hkey : key ∈ rule.keys) : s.node.text? key = none :=
    Members.text?_eq_none_of_has s.node (has_eq_false_of_not_claims h hkey)
  rw [← edited_composed]
  cases rule with
  | itemSource =>
    have horigin : origin? s = none := origin?_eq_none_iff.2 ⟨htext (by decide), htext (by decide)⟩
    have hkey : s.node.text? "x-itemKey" = none := htext (by decide)
    have htitle : s.node.text? "x-itemTitle" = none := htext (by decide)
    simp [edited, composed, horigin, hkey, htitle]
  | display =>
    have hcomp : s.node.text? "x-display" = none := htext (by decide)
    simp [edited, hcomp]
  | condition =>
    have hcond : s.node.text? "x-if" = none := htext (by decide)
    simp [edited, hcond]
  | presentation =>
    have hprops : s.node.get? "x-props" = none := hget (by decide)
    have hcols : s.node.get? "x-cols" = none := hget (by decide)
    simp [edited, hprops, hcols]

section Parts

variable {rules : List Rule}
  (hfits : ∀ rule ∈ rules, rule.keys.any s.node.has = true → rule.Satisfied s.detector s.node)

include hfits

theorem satisfied_of_has {rule : Rule} (hrule : rule ∈ rules) {key : String}
    (hkey : key ∈ rule.keys) (hhas : s.node.has key = true) :
    rule.Satisfied s.detector s.node :=
  hfits rule hrule (List.any_eq_true.2 ⟨key, hkey, hhas⟩)

theorem itemText?_ne_none_iff (hrule : .itemSource ∈ rules) {key : String}
    (hkey : key ∈ Rule.itemSource.keys) :
    s.node.text? key ≠ none ↔ s.node.has key = true := by
  refine Members.text?_ne_none_iff ?_
  intro hhas
  have hitems : ItemsFit s.detector s.node := satisfied_of_has hfits hrule hkey hhas
  exact hitems.texts key hkey

theorem origin?_ne_none_iff (hrule : .itemSource ∈ rules) :
    origin? s ≠ none ↔ s.node.has "x-fromData" = true ∨ s.node.has "x-fromUrl" = true := by
  rw [← itemText?_ne_none_iff hfits hrule (by decide),
    ← itemText?_ne_none_iff hfits hrule (by decide), ne_eq, origin?_eq_none_iff,
    Classical.not_and_iff_not_or_not]

/-- Items are there exactly if a source of them is claimed. -/
theorem getItems_composed_ne_none_iff :
    (composed s rules).getItems ≠ none ↔ .itemSource ∈ rules ∧
      (s.node.has "x-fromData" = true ∨ s.node.has "x-fromUrl" = true) := by
  by_cases hrule : .itemSource ∈ rules
  · rw [← origin?_ne_none_iff hfits hrule]
    simp [composed, hrule]
  · simp [composed, hrule]

theorem itemKey_composed_ne_none_iff :
    (composed s rules).itemKey ≠ none ↔ .itemSource ∈ rules ∧ s.node.has "x-itemKey" = true ∧
      (composed s rules).getItems = none := by
  by_cases hrule : .itemSource ∈ rules
  · rw [← itemText?_ne_none_iff hfits hrule (by decide)]
    simp [composed, hrule, and_comm]
  · simp [composed, hrule]

theorem itemTitle_composed_ne_none_iff :
    (composed s rules).itemTitle ≠ none ↔ .itemSource ∈ rules ∧ s.node.has "x-itemTitle" = true ∧
      (composed s rules).getItems = none := by
  by_cases hrule : .itemSource ∈ rules
  · rw [← itemText?_ne_none_iff hfits hrule (by decide)]
    simp [composed, hrule, and_comm]
  · simp [composed, hrule]

theorem cond_composed_ne_none_iff :
    (composed s rules).cond ≠ none ↔ .condition ∈ rules ∧ s.node.has "x-if" = true := by
  by_cases hrule : .condition ∈ rules
  · have htext : s.node.text? "x-if" ≠ none ↔ s.node.has "x-if" = true :=
      Members.text?_ne_none_iff (satisfied_of_has hfits hrule (by decide))
    rw [← htext]
    simp [composed, hrule]
  · simp [composed, hrule]

theorem props_composed_ne_none_iff :
    (composed s rules).props ≠ none ↔ .presentation ∈ rules ∧ s.node.has "x-props" = true := by
  by_cases hrule : .presentation ∈ rules
  · cases hhas : s.node.has "x-props" with
    | false => simp [composed, (Members.get?_eq_none_iff_has _ _).2 hhas]
    | true =>
      obtain ⟨hprops, -⟩ := satisfied_of_has hfits hrule (by decide) hhas
      obtain ⟨v, hv⟩ : ∃ v, s.node.get? "x-props" = some v := by
        rw [← Option.ne_none_iff_exists', ne_eq, Members.get?_eq_none_iff_has, hhas]
        exact Bool.noConfusion
      obtain ⟨props, rfl⟩ := hprops v hv
      simp [composed, hrule, hv, Json.asMembers?]
  · simp [composed, hrule]

omit hfits in
theorem cols_composed_ne_none_iff :
    (composed s rules).cols ≠ none ↔ .presentation ∈ rules ∧ s.node.has "x-cols" = true := by
  have hget : s.node.get? "x-cols" ≠ none ↔ s.node.has "x-cols" = true := by
    rw [ne_eq, Members.get?_eq_none_iff_has, Bool.not_eq_false]
  by_cases hrule : .presentation ∈ rules
  · rw [← hget]
    simp [composed, hrule]
  · simp [composed, hrule]

omit hfits in
/-- A component that a rule names is not lost. -/
theorem comp_composed_ne_none {rule : Rule} (hrule : rule ∈ rules)
    (h : component? s rule ≠ none) : (composed s rules).comp ≠ none := by
  intro hcomp
  have hnone : (rules.filterMap (component? s)).getLast? = none := hcomp
  rw [List.getLast?_eq_none_iff, List.filterMap_eq_nil_iff] at hnone
  exact h (hnone rule hrule)

/-- A key of the node that a rule claims is shown in some part of the layout. -/
theorem composed_ne_empty {rule : Rule} (hrule : rule ∈ rules) {key : String}
    (hkey : key ∈ rule.keys) (hhas : s.node.has key = true) : composed s rules ≠ {} := by
  have hsatisfied := satisfied_of_has hfits hrule hkey hhas
  intro hempty
  cases rule with
  | itemSource =>
    have hitems : (composed s rules).getItems = none := by rw [hempty]
    have hnoSource (h : s.node.has "x-fromData" = true ∨ s.node.has "x-fromUrl" = true) : False :=
      (getItems_composed_ne_none_iff hfits).2 ⟨hrule, h⟩ hitems
    simp only [keys, List.mem_cons, List.not_mem_nil, or_false] at hkey
    rcases hkey with rfl | rfl | rfl | rfl | rfl
    · exact hnoSource (Or.inl hhas)
    · exact hnoSource (Or.inr hhas)
    · -- a property of the items is only there beside a URL
      have hprop := (itemText?_ne_none_iff hfits hrule (by decide)).2 hhas
      have hurl := (itemText?_ne_none_iff hfits hrule (by decide)).1 (hsatisfied.itemsProp hprop)
      exact hnoSource (Or.inr hurl)
    · exact (itemKey_composed_ne_none_iff hfits).2 ⟨hrule, hhas, hitems⟩ (by rw [hempty])
    · exact (itemTitle_composed_ne_none_iff hfits).2 ⟨hrule, hhas, hitems⟩ (by rw [hempty])
  | display =>
    obtain rfl := List.mem_singleton.1 hkey
    have htext : s.node.text? "x-display" ≠ none :=
      (Members.text?_ne_none_iff fun _ => hsatisfied).2 hhas
    exact comp_composed_ne_none hrule htext (by rw [hempty])
  | condition =>
    obtain rfl := List.mem_singleton.1 hkey
    exact (cond_composed_ne_none_iff hfits).2 ⟨hrule, hhas⟩ (by rw [hempty])
  | presentation =>
    simp only [keys, List.mem_cons, List.not_mem_nil, or_false] at hkey
    rcases hkey with rfl | rfl
    · exact (props_composed_ne_none_iff hfits).2 ⟨hrule, hhas⟩ (by rw [hempty])
    · exact cols_composed_ne_none_iff.2 ⟨hrule, hhas⟩ (by rw [hempty])

end Parts

end Rule

namespace Table

variable {s : Site}

/-- The rules that claim a key of the node, all of them satisfied, take the layout of the rules
    before them to the layout of all rules. -/
theorem applyRules_composed {rules : List Rule}
    (h : ∀ rule ∈ rules, rule.keys.any s.node.has = true → rule.Satisfied s.detector s.node)
    (done : List Rule) :
    (applyRules s (rules.filter (fun rule => rule.keys.any s.node.has)) (Rule.composed s done)).2
      = .ok (Rule.composed s (done ++ rules)) := by
  induction rules generalizing done with
  | nil => rw [List.filter_nil, applyRules, List.append_nil]
  | cons rule rest ih =>
    obtain ⟨hrule, hrest⟩ := List.forall_mem_cons.1 h
    have hnext := ih hrest (done ++ [rule])
    rw [List.append_assoc, List.singleton_append] at hnext
    cases hclaims : rule.keys.any s.node.has with
    | true =>
      rw [List.filter_cons, if_pos hclaims, applyRules, Rule.apply_composed (hrule hclaims)]
      exact hnext
    | false =>
      rw [Rule.composed_append_of_not_claims hclaims] at hnext
      rw [List.filter_cons, if_neg (by rw [hclaims]; exact Bool.false_ne_true)]
      exact hnext

/-- A table maps a node to what its rules compose, if those that claim a key are satisfied. -/
theorem result_map_eq {table : Table} (hconsumed : table.consumed s.node ≠ [])
    (hlayout : s.node.has "layout" = false)
    (h : ∀ rule ∈ table.rules, rule.keys.any s.node.has = true →
      rule.Satisfied s.detector s.node) :
    (table.map s).result
      = .ok ⟨(Rule.composed s table.rules).finalize, table.consumed s.node⟩ := by
  have hrules : (applyRules s (table.applicable s.node) {}).2
      = .ok (Rule.composed s table.rules) := by
    have hrun := applyRules_composed h []
    rwa [Rule.composed_nil, List.nil_append] at hrun
  rw [result_map_of_rules hconsumed hlayout, hrules]
  rfl

theorem mem_consumed_iff {table : Table} (rule : Rule) {node : Members} {key : String}
    (hkey : key ∈ rule.keys) :
    key ∈ table.consumed node ↔ rule ∈ table.rules ∧ node.has key = true := by
  rw [mem_consumed_iff_exists]
  constructor
  · rintro ⟨other, hother, hclaims, hhas⟩
    obtain rfl : other = rule := Rule.eq_of_mem_keys hkey hclaims
    exact ⟨hother, hhas⟩
  · rintro ⟨hrule, hhas⟩
    exact ⟨rule, hrule, hkey, hhas⟩

theorem consumed_congr {table other : Table}
    (h : ∀ rule, rule ∈ other.rules ↔ rule ∈ table.rules) (node : Members) :
    other.consumed node = table.consumed node := by
  refine List.filter_congr ?_
  intro key _
  rw [Bool.eq_iff_iff, recognizes, recognizes, List.any_eq_true, List.any_eq_true]
  simp only [h]

end Table

namespace LayoutNode

variable {node : LayoutNode}

theorem finalize_ne_none (h : node ≠ {}) : node.finalize ≠ none := by
  have hempty : node.isEmpty = false := decide_eq_false h
  rw [finalize, hempty, if_neg Bool.false_ne_true]
  split
  · rename_i hcomp
    rw [isCompOnly, Bool.and_eq_true, Option.isSome_iff_ne_none] at hcomp
    simpa using hcomp.1
  · exact Option.some_ne_none _

theorem isCompOnly_iff : node.isCompOnly = true ↔ ∃ comp, node = { comp := some comp } := by
  obtain ⟨comp, getItems, label, cond, itemTitle, itemKey, props, cols⟩ := node
  cases comp <;> simp [isCompOnly, isEmpty, empty]

/-- A layout is written as a bare name exactly if its component is all that it has. -/
theorem finalize_eq_comp_iff {comp : String} :
    node.finalize = some (.comp comp) ↔ node = { comp := some comp } := by
  constructor
  · intro h
    unfold finalize at h
    split at h
    · cases h
    · split at h
      · rename_i hcomp
        obtain ⟨name, rfl⟩ := isCompOnly_iff.1 hcomp
        obtain rfl : name = comp := by simpa using h
        rfl
      · cases h
  · rintro rfl
    have hcomp : ({ comp := some comp } : LayoutNode).isCompOnly = true :=
      isCompOnly_iff.2 ⟨comp, rfl⟩
    have hempty : ({ comp := some comp } : LayoutNode).isEmpty = false := by simp [isEmpty, empty]
    rw [finalize, hempty, hcomp]
    rfl

end LayoutNode

/-! ### What a table produces -/

/-- What a table makes of a node with claimed keys. -/
structure Table.Composes (table : Table) (s : Site) (mapped : Mapped) : Prop where
  /-- The layout has the parts that the rules of the table compose. -/
  layout_eq : mapped.layout = (Rule.composed s table.rules).finalize
  /-- Keys are not consumed for nothing. -/
  layout_ne_none : mapped.layout ≠ none
  /-- It is a bare name exactly if the component is its only part. -/
  layout_eq_comp_iff : ∀ comp, mapped.layout = some (.comp comp) ↔
    Rule.composed s table.rules = { comp := some comp }
  /-- Items are there exactly if a source is claimed. -/
  getItems_iff : (Rule.composed s table.rules).getItems ≠ none ↔
    "x-fromData" ∈ mapped.consumed ∨ "x-fromUrl" ∈ mapped.consumed
  /-- Without a source the layout itself has the key and the title of an item. -/
  itemKey_iff : (Rule.composed s table.rules).itemKey ≠ none ↔
    "x-itemKey" ∈ mapped.consumed ∧ (Rule.composed s table.rules).getItems = none
  itemTitle_iff : (Rule.composed s table.rules).itemTitle ≠ none ↔
    "x-itemTitle" ∈ mapped.consumed ∧ (Rule.composed s table.rules).getItems = none
  cond_iff : (Rule.composed s table.rules).cond ≠ none ↔ "x-if" ∈ mapped.consumed
  props_iff : (Rule.composed s table.rules).props ≠ none ↔ "x-props" ∈ mapped.consumed
  cols_iff : (Rule.composed s table.rules).cols ≠ none ↔ "x-cols" ∈ mapped.consumed
  /-- Any table of the same rules maps the node too, to the same but for the component. -/
  ofSameRules : ∀ other : Table, (∀ rule, rule ∈ other.rules ↔ rule ∈ table.rules) →
    (other.map s).result
        = .ok ⟨(Rule.composed s other.rules).finalize, other.consumed s.node⟩ ∧
      other.consumed s.node = mapped.consumed ∧
      { Rule.composed s other.rules with comp := none }
        = { Rule.composed s table.rules with comp := none }
  /-- In the built-in order an explicit component comes last. -/
  comp_builtin : table = .builtin → ∀ comp, s.node.get? "x-display" = some (.str comp) →
    (Rule.composed s table.rules).comp = some comp

namespace Table

variable {table : Table} {s : Site} {mapped : Mapped}

/-- A node of which keys are consumed satisfies the rules that claim them and has no layout. -/
theorem satisfied_of_consumed (h : (table.map s).result = .ok mapped)
    (hmapped : mapped.consumed ≠ []) :
    table.consumed s.node ≠ [] ∧ s.node.has "layout" = false ∧
      ∀ rule ∈ table.rules, rule.keys.any s.node.has = true →
        rule.Satisfied s.detector s.node := by
  have hconsumed : table.consumed s.node ≠ [] := by
    intro hnil
    rw [result_map_of_unclaimed hnil] at h
    obtain rfl : {} = mapped := Except.ok.inj h
    exact hmapped rfl
  obtain hnil | ⟨hlayout, happlicable⟩ := exists_mapped_iff.1 ⟨mapped, h⟩
  · exact absurd hnil hconsumed
  · refine ⟨hconsumed, hlayout, ?_⟩
    intro rule hrule hclaims
    exact happlicable rule (List.mem_filter.2 ⟨hrule, hclaims⟩)

/-- **What a table maps a node with claimed keys to is composed by its rules.** -/
theorem composes_map (h : (table.map s).result = .ok mapped) (hconsumed : mapped.consumed ≠ []) :
    table.Composes s mapped := by
  obtain ⟨hclaimed, hlayout, hfits⟩ := satisfied_of_consumed h hconsumed
  obtain rfl : ⟨(Rule.composed s table.rules).finalize, table.consumed s.node⟩ = mapped :=
    Except.ok.inj ((result_map_eq hclaimed hlayout hfits).symm.trans h)
  refine
    { layout_eq := rfl
      layout_ne_none := ?layout
      layout_eq_comp_iff := fun _ => LayoutNode.finalize_eq_comp_iff
      getItems_iff := ?getItems
      itemKey_iff := ?itemKey
      itemTitle_iff := ?itemTitle
      cond_iff := ?cond
      props_iff := ?props
      cols_iff := ?cols
      ofSameRules := ?same
      comp_builtin := ?builtin }
  case layout =>
    obtain ⟨key, hkey⟩ := List.exists_mem_of_ne_nil _ hclaimed
    obtain ⟨rule, hrule, hmem, hhas⟩ := mem_consumed_iff_exists.1 hkey
    exact LayoutNode.finalize_ne_none (Rule.composed_ne_empty hfits hrule hmem hhas)
  case getItems =>
    rw [Rule.getItems_composed_ne_none_iff hfits, mem_consumed_iff .itemSource (by decide),
      mem_consumed_iff .itemSource (by decide), and_or_left]
  case itemKey =>
    rw [Rule.itemKey_composed_ne_none_iff hfits, mem_consumed_iff .itemSource (by decide),
      and_assoc]
  case itemTitle =>
    rw [Rule.itemTitle_composed_ne_none_iff hfits,
      mem_consumed_iff .itemSource (by decide), and_assoc]
  case cond =>
    rw [Rule.cond_composed_ne_none_iff hfits, mem_consumed_iff .condition (by decide)]
  case props =>
    rw [Rule.props_composed_ne_none_iff hfits, mem_consumed_iff .presentation (by decide)]
  case cols =>
    rw [Rule.cols_composed_ne_none_iff, mem_consumed_iff .presentation (by decide)]
  case same =>
    intro other hrules
    have hother : other.consumed s.node = table.consumed s.node := consumed_congr hrules s.node
    refine ⟨result_map_eq (hother ▸ hclaimed) hlayout ?_, hother, ?_⟩
    · intro rule hrule
      exact hfits rule ((hrules rule).1 hrule)
    · simp [Rule.composed, hrules]
  case builtin =>
    rintro rfl comp hdisplay
    have hcomp : s.node.text? "x-display" = some comp := by
      rw [Members.text?, hdisplay, Option.bind_some, Json.asString?]
    simp [Rule.composed, builtin, List.findSome?_cons, Rule.component?, hcomp]

/-- Items from a URL beside another component, and a width. -/
def composingSite : Site where
  path := ""
  node := [("x-display", .str "autocomplete"), ("x-cols", .num (.int 6)), ("x-itemKey", .str "id"),
    ("type", .str "string"), ("x-fromUrl", .str "/\x7ba.b\x7d"), ("x-if", .str "c.d")]
  detector := .ofMin 2

/-- The rule about items stands after that about the component, and does so twice. -/
def composingTable : Table :=
  ⟨[.itemSource, .display, .presentation, .itemSource, .condition]⟩

theorem composes_map_composingSite :
    composingTable.Composes composingSite
      { layout := some (.node
          { comp := some "select"
            getItems := some
              { origin := .url (.ofTemplate "/$\x7ba.b\x7d") none, itemKey := some "id" }
            cond := some (.ofExpression "c.d")
            cols := some (.num (.int 6)) })
        consumed := ["x-display", "x-cols", "x-itemKey", "x-fromUrl", "x-if"] } :=
  composes_map (eq_ok_of_toOption (by decide +kernel)) (by decide)

end Table

end Relayout
