/-
  Relayout/Proofs/Migration/Remapping.lean
  ========================================
  **What could be mapped once can be mapped again.**

  Whether the extensions of an object can be mapped depends on the kinds of their values and
  on the texts among them, and a rework keeps both.  So an object that is acceptable to a
  walk stays acceptable (`Acceptable.of_reworks`), and an object that was added is
  acceptable to any (`acceptable_of_inert`).
-/
import Relayout.Proofs.Migration.Rework
import Relayout.Proofs.Migration.Success

namespace Relayout

namespace Table

variable {table : Table} {node ns : Members}

/-- Under any key there is nothing in both objects, or a value and what was made of it. -/
theorem Reworks.get?_cases (h : table.Reworks (.obj node) (.obj ns)) (hkeys : ns.keys = node.keys)
    (key : String) :
    (node.get? key = none ∧ ns.get? key = none) ∨
      ∃ a b, node.get? key = some a ∧ ns.get? key = some b ∧ table.Reworks a b := by
  apply h.both_or_neither
  rw [Json.child?, Json.child?, Members.get?_eq_none_iff, Members.get?_eq_none_iff, hkeys]

theorem Reworks.exists_origin (h : table.Reworks (.obj node) (.obj ns))
    (hkeys : ns.keys = node.keys) {key : String} {b : Json} (hb : ns.get? key = some b) :
    ∃ a, node.get? key = some a ∧ table.Retains a b := by
  rcases h.get?_cases hkeys key with ⟨-, hnone⟩ | ⟨a, b', ha, hb', hchild⟩
  · rw [hnone] at hb
    cases hb
  · rw [hb'] at hb
    cases hb
    exact ⟨a, ha, hchild.root⟩

/-! ### Rules -/

theorem Reworks.text?_eq_of_keys (h : table.Reworks (.obj node) (.obj ns))
    (hkeys : ns.keys = node.keys) (key : String) : ns.text? key = node.text? key := by
  unfold Members.text?
  rcases h.get?_cases hkeys key with ⟨ha, hb⟩ | ⟨a, b, ha, hb, hchild⟩
  · rw [ha, hb]
  · rw [ha, hb]
    exact hchild.root.asString?_eq

theorem Reworks.textIfAny (h : table.Reworks (.obj node) (.obj ns)) (hkeys : ns.keys = node.keys)
    {key : String} (htext : node.TextIfAny key) : ns.TextIfAny key := by
  intro b hb
  obtain ⟨a, ha, hretains⟩ := h.exists_origin hkeys hb
  obtain ⟨text, rfl⟩ := htext a ha
  cases hretains with
  | str => exact ⟨text, rfl⟩

theorem Reworks.any_str_eq {xs ys : List Json} (h : table.Reworks (.arr xs) (.arr ys))
    (text : String) : ys.any (· = .str text) = xs.any (· = .str text) := by
  have hlength : ys.length = xs.length := by
    cases h.root with
    | arr hlength => exact hlength
  have helement (i : Nat) : ys[i]? = some (.str text) ↔ xs[i]? = some (.str text) := by
    have hx : (Json.arr xs).child? (toString i) = xs[i]? := Json.child?_toString xs i
    have hy : (Json.arr ys).child? (toString i) = ys[i]? := Json.child?_toString ys i
    rcases h.element_cases (toString i) with ⟨ha, hb⟩ | ⟨a, b, ha, hb, hchild⟩
    · rw [← hx, ← hy, ha, hb]
    · rw [← hx, ← hy, ha, hb, Option.some.injEq, Option.some.injEq]
      cases hchild.root <;> simp
  rw [Bool.eq_iff_iff, List.any_eq_true, List.any_eq_true]
  simp only [decide_eq_true_eq, exists_eq_right, List.mem_iff_getElem?, helement]

/-- Whether a node describes a list stays. -/
theorem Reworks.isArray_eq (h : table.Reworks (.obj node) (.obj ns)) (hkeys : ns.keys = node.keys)
    (path : String) (detector : Template.Detector) :
    Site.isArray ⟨path, ns, detector⟩ = Site.isArray ⟨path, node, detector⟩ := by
  have hitems : ns.has "items" = node.has "items" := Members.has_congr (by rw [hkeys])
  unfold Site.isArray
  rcases h.get?_cases hkeys "type" with ⟨ha, hb⟩ | ⟨a, b, ha, hb, hchild⟩
  · simp only [ha, hb, hitems]
  · simp only [ha, hb]
    cases hchild.root with
    | null | bool | num | obj => exact hitems
    | str => rfl
    | arr => exact hchild.any_str_eq "array"

/-- What a rule asks of an object it may ask again. -/
theorem Reworks.satisfied (h : table.Reworks (.obj node) (.obj ns)) (hkeys : ns.keys = node.keys)
    {detector : Template.Detector} {rule : Rule} (hsatisfied : rule.Satisfied detector node) :
    rule.Satisfied detector ns := by
  have htext := h.text?_eq_of_keys hkeys
  cases rule with
  | itemSource =>
    refine ⟨?_, ?_, ?_, ?_, ?_⟩
    · intro key hkey
      exact h.textIfAny hkeys (hsatisfied.texts key hkey)
    · rw [htext, htext]
      exact hsatisfied.oneSource
    · rw [htext, htext]
      exact hsatisfied.itemsProp
    · rw [htext, htext, h.isArray_eq hkeys]
      exact hsatisfied.list
    · rw [htext]
      exact hsatisfied.expression
  | display => exact h.textIfAny hkeys hsatisfied
  | condition => exact h.textIfAny hkeys hsatisfied
  | presentation =>
    obtain ⟨hprops, hcols⟩ := hsatisfied
    constructor
    · intro b hb
      obtain ⟨a, ha, hretains⟩ := h.exists_origin hkeys hb
      obtain ⟨props, rfl⟩ := hprops a ha
      cases hretains with
      | obj => exact ⟨_, rfl⟩
    · intro b hb
      obtain ⟨a, ha, hretains⟩ := h.exists_origin hkeys hb
      rcases hcols a ha with ⟨n, rfl⟩ | ⟨sizes, rfl⟩
      · cases hretains with
        | num => exact Or.inl ⟨n, rfl⟩
      · cases hretains with
        | obj => exact Or.inr ⟨_, rfl⟩

end Table

namespace Dialect

variable {d : Dialect} {node ns : Members}

theorem exists_mapped_of_unclaimed (h : ∀ key ∈ ns.keys, d.table.recognizes key = false)
    (path : String) : ∃ mapped, (d.mapping path ns).result = .ok mapped := by
  apply Table.exists_mapped_iff.2
  left
  rw [Table.consumed, List.filter_eq_nil_iff]
  intro key hkey
  simp [h key hkey]

/-- Extensions that could be mapped can be mapped when they are found again, and when they have
    gone there is nothing to map. -/
theorem exists_mapped_of_reworks (h : d.table.Reworks (.obj node) (.obj ns)) {path : String}
    (hmapped : ∃ mapped, (d.mapping path node).result = .ok mapped) :
    ∃ mapped, (d.mapping path ns).result = .ok mapped := by
  cases h.root with
  | obj hkeys =>
    rcases hkeys with hsame | ⟨added, hadded, -, hvisited⟩
    · have hconsumed : d.table.consumed ns = d.table.consumed node := by
        rw [Table.consumed, Table.consumed, hsame]
      have hhas (key : String) : ns.has key = node.has key := Members.has_congr (by rw [hsame])
      have happlicable : d.table.applicable ns = d.table.applicable node := by
        unfold Table.applicable
        simp only [funext hhas]
      apply Table.exists_mapped_iff.2
      simp only [hconsumed, hhas, happlicable]
      apply (Table.exists_mapped_iff.1 hmapped).imp_right
      rintro ⟨hlayout, hrules⟩
      exact ⟨hlayout, fun rule hrule => h.satisfied hsame (hrules rule hrule)⟩
    · apply exists_mapped_of_unclaimed
      intro key hkey
      exact d.table.recognizes_eq_false_of_mem_visited hadded (hvisited ▸ hkey)

/-! ### Objects -/

/-- The reference of what was made of an acceptable object is the reference of that object. -/
theorem Acceptable.exists_ref_of_reworks {document : Json} (hnode : d.Acceptable document node)
    (h : d.table.Reworks (.obj node) (.obj ns)) {v : Json} (hv : ns.get? "$ref" = some v) :
    ∃ ref, v = .str ref ∧ node.get? "$ref" = some (.str ref) := by
  have hclaimed : d.table.recognizes "$ref" = false :=
    d.table.recognizes_eq_false_of_builtin (by decide)
  rcases h.child_cases hclaimed (by decide) with ⟨-, hb⟩ | ⟨a, b, ha, hb, hchild⟩
  · rw [show ns.get? "$ref" = none from hb] at hv
    cases hv
  · rw [show ns.get? "$ref" = some b from hb] at hv
    cases hv
    obtain ⟨ref, rfl, -⟩ := hnode.ref a ha
    cases hchild.root with
    | str => exact ⟨ref, rfl, ha⟩

/-- An acceptable object stays acceptable in what was made of its document, if its reference still
    resolves there. -/
theorem Acceptable.of_reworks {document schema : Json} (hnode : d.Acceptable document node)
    (h : d.table.Reworks (.obj node) (.obj ns))
    (href : ∀ ref, node.get? "$ref" = some (.str ref) → schema.Resolves ref) :
    d.Acceptable schema ns where
  mapped := by
    intro path
    exact exists_mapped_of_reworks h (hnode.mapped path)
  ref := by
    intro v hv
    obtain ⟨ref, rfl, ha⟩ := hnode.exists_ref_of_reworks h hv
    exact ⟨ref, rfl, href ref ha⟩

theorem acceptable_of_inert {document : Json} (h : (Json.obj ns).shape.Inert) :
    d.Acceptable document ns where
  mapped := by
    intro path
    apply exists_mapped_of_unclaimed
    intro key hkey
    have hkeys : ∀ key ∈ LayoutNode.keys, key ∉ Table.builtin.recognizedKeys := by decide
    exact d.table.recognizes_eq_false_of_builtin (hkeys key (h _ rfl hkey))
  ref := by
    intro v hv
    have hkey : "$ref" ∉ LayoutNode.keys := by decide
    rw [Json.child?_eq_none_of_inert h hkey] at hv
    cases hv

end Dialect

end Relayout
