/-
  Relayout/Proofs/Migration/WellFormed.lean
  =========================================
  **A run repeats no key.**

  What a run makes of a document without repeated keys is one again
  (`Transformer.wellFormed_run`): members are taken away, or added under keys that are not
  there, and the layouts that are added hold nothing of the document but the values of
  `x-props` and `x-cols`.
-/
import Relayout.Proofs.Extension.Edit
import Relayout.Proofs.Json.Induction
import Relayout.Proofs.Migration.Reached

namespace Relayout

namespace Json

theorem wellFormed_obj_append {ms ns : Members} (hms : (obj ms).WellFormed)
    (hns : (obj ns).WellFormed) (hnew : ∀ key ∈ ns.keys, key ∉ ms.keys) :
    (obj (ms ++ ns)).WellFormed := by
  rw [wellFormed_obj_iff] at hms hns ⊢
  constructor
  · rw [Members.keys_append, List.nodup_append]
    refine ⟨hms.1, hns.1, ?_⟩
    rintro key hkey _ hadded rfl
    exact hnew key hadded hkey
  · intro m hm
    rcases List.mem_append.1 hm with hm | hm
    · exact hms.2 m hm
    · exact hns.2 m hm

/-! ### Putting a value in place -/

theorem WellFormed.setStep {v new : Json} (hv : v.WellFormed) (hnew : new.WellFormed)
    (segment : String) : (v.setStep segment new).WellFormed := by
  cases v with
  | obj ms => exact hv.insert hnew (Pointer.unescape segment)
  | arr xs =>
    rw [Json.setStep]
    split
    · apply wellFormed_arr_iff.2
      intro x hx
      rcases List.mem_or_eq_of_mem_set hx with hold | rfl
      · exact wellFormed_arr_iff.1 hv x hold
      · exact hnew
    · exact hv
  | null | bool | num | str => exact hv

theorem WellFormed.replaceFrom? {v v' new : Json} (hv : v.WellFormed) (hnew : new.WellFormed)
    {segments : List String} (h : Json.replaceFrom? new segments v = some v') :
    v'.WellFormed := by
  induction segments generalizing v v' with
  | nil =>
    cases h
    exact hnew
  | cons segment segments ih =>
    obtain ⟨child, child', hchild, hrest, rfl⟩ := replaceFrom?_cons_eq_some h
    exact hv.setStep (ih (hv.child hchild) hrest) segment

theorem wellFormed_splice {arena : List (Pointer × Json)} {document : Json}
    (hdocument : document.WellFormed) (harena : ∀ entry ∈ arena, entry.2.WellFormed) :
    (splice arena document).2.WellFormed := by
  induction arena generalizing document with
  | nil => exact hdocument
  | cons entry rest ih =>
    obtain ⟨p, w⟩ := entry
    obtain ⟨hw, hrest⟩ := List.forall_mem_cons.1 harena
    rw [splice]
    cases hreplace : document.replace? p w with
    | none => exact ih hdocument hrest
    | some document' => exact ih (hdocument.replaceFrom? hw hreplace) hrest

end Json

/-! ### Layouts -/

/-- The keys of a written layout. -/
def LayoutNode.keys : List String :=
  ["comp", "getItems", "label", "cond", "itemTitle", "itemKey", "props", "cols"]

/-- What a layout holds of a document repeats no key. -/
structure LayoutNode.WellFormed (layout : LayoutNode) : Prop where
  props : ∀ props, layout.props = some props → (Json.obj props).WellFormed
  cols : ∀ cols, layout.cols = some cols → cols.WellFormed

theorem keys_optionalMember_sublist {α : Type} (key : String) (write : α → Json) (v : Option α) :
    (Members.keys (optionalMember key write v)).Sublist [key] := by
  cases v <;> simp [optionalMember, Members.keys]

theorem mem_optionalMember {α : Type} {key : String} {write : α → Json} {v : Option α}
    {m : String × Json} (h : m ∈ optionalMember key write v) : ∃ a, v = some a ∧ m.2 = write a := by
  cases v with
  | none => cases h
  | some a =>
    rw [List.mem_singleton.1 h]
    exact ⟨a, rfl, rfl⟩

theorem Descriptor.wellFormed_toJson (d : Descriptor) : d.toJson.WellFormed := by
  obtain ⟨expr, type, isPure⟩ := d
  cases type <;> cases isPure <;>
    simp [toJson, optionalMember, ExprType.toJson, Json.WellFormed, Json.MembersWellFormed,
      Members.keys]

theorem ItemSource.wellFormed_toJson (s : ItemSource) : s.toJson.WellFormed := by
  obtain ⟨origin, itemKey, itemTitle⟩ := s
  cases origin with
  | url url itemsProp =>
    have hurl := url.wellFormed_toJson
    cases itemsProp <;> cases itemKey <;> cases itemTitle <;>
      simp [toJson, ItemOrigin.toMembers, optionalMember, Json.WellFormed, Json.MembersWellFormed,
        Members.keys, hurl]
  | expr expr =>
    cases itemKey <;> cases itemTitle <;>
      simp [toJson, ItemOrigin.toMembers, optionalMember, Json.WellFormed, Json.MembersWellFormed,
        Members.keys]

namespace LayoutNode

/-- A written layout has keys of layouts, each once. -/
theorem exists_toJson_eq (layout : LayoutNode) :
    ∃ ms : Members, layout.toJson = .obj ms ∧ ms.keys.Sublist keys := by
  refine ⟨_, rfl, ?_⟩
  simp only [Members.keys_append]
  exact (((((((keys_optionalMember_sublist "comp" _ _).append
    (keys_optionalMember_sublist "getItems" _ _)).append
    (keys_optionalMember_sublist "label" _ _)).append
    (keys_optionalMember_sublist "cond" _ _)).append
    (keys_optionalMember_sublist "itemTitle" _ _)).append
    (keys_optionalMember_sublist "itemKey" _ _)).append
    (keys_optionalMember_sublist "props" _ _)).append
    (keys_optionalMember_sublist "cols" _ _)

/-- The values of a written layout are texts, descriptors, an item source, and what it holds of a
    document. -/
theorem value_cases {layout : LayoutNode} {ms : Members} (hms : layout.toJson = .obj ms)
    {m : String × Json} (hm : m ∈ ms) :
    (∃ s, m.2 = .str s) ∨ (∃ d : Descriptor, m.2 = d.toJson) ∨
      (∃ s : ItemSource, m.2 = s.toJson) ∨
      (∃ props, layout.props = some props ∧ m.2 = .obj props) ∨ layout.cols = some m.2 := by
  cases hms
  simp only [List.mem_append] at hm
  rcases hm with ((((((hm | hm) | hm) | hm) | hm) | hm) | hm) | hm <;>
    obtain ⟨a, ha, hvalue⟩ := mem_optionalMember hm
  · exact Or.inl ⟨a, hvalue⟩
  · exact Or.inr (Or.inr (Or.inl ⟨a, hvalue⟩))
  · exact Or.inl ⟨a, hvalue⟩
  · exact Or.inr (Or.inl ⟨a, hvalue⟩)
  · exact Or.inl ⟨a, hvalue⟩
  · exact Or.inl ⟨a, hvalue⟩
  · exact Or.inr (Or.inr (Or.inr (Or.inl ⟨a, ha, hvalue⟩)))
  · exact Or.inr (Or.inr (Or.inr (Or.inr (ha.trans (congrArg some hvalue.symm)))))

theorem WellFormed.toJson {layout : LayoutNode} (h : layout.WellFormed) :
    layout.toJson.WellFormed := by
  obtain ⟨ms, hms, hkeys⟩ := layout.exists_toJson_eq
  rw [hms]
  refine Json.wellFormed_obj_iff.2 ⟨hkeys.nodup (by decide), fun m hm => ?_⟩
  rcases value_cases hms hm with ⟨s, hs⟩ | ⟨d, hd⟩ | ⟨s, hs⟩ | ⟨props, hprops, hvalue⟩ | hcols
  · rw [hs]
    trivial
  · exact hd ▸ d.wellFormed_toJson
  · exact hs ▸ s.wellFormed_toJson
  · exact hvalue ▸ h.props props hprops
  · exact h.cols m.2 hcols

end LayoutNode

/-- What the layout of a node holds repeats no key if the node does not. -/
theorem Table.comp_or_wellFormed_of_layout? {table : Table} {s : Site}
    (hnode : (Json.obj s.node).WellFormed) {layout : Layout} (h : table.layout? s = some layout) :
    (∃ comp, layout = .comp comp) ∨ ∃ node, layout = .node node ∧ node.WellFormed := by
  have hvalue {key : String} {v : Json} (hget : s.node.get? key = some v) : v.WellFormed :=
    (Json.wellFormed_obj_iff.1 hnode).2 _ (Members.mem_of_get?_eq_some hget)
  obtain ⟨node, hdrawn, hfinal⟩ := drawnFrom_of_layout? h
  rcases LayoutNode.of_finalize_eq_some hfinal with ⟨comp, -, hcomp⟩ | hlayout
  · exact Or.inl ⟨comp, hcomp⟩
  · exact Or.inr ⟨node, hlayout, fun props hprops => hvalue (hdrawn.props props hprops),
      fun cols hcols => hvalue (hdrawn.cols cols hcols).1⟩

/-- The layout that a node is mapped to repeats no key if the node does not. -/
theorem Table.wellFormed_of_layout? {table : Table} {s : Site}
    (hnode : (Json.obj s.node).WellFormed) {layout : Layout} (h : table.layout? s = some layout) :
    layout.toJson.WellFormed := by
  rcases comp_or_wellFormed_of_layout? hnode h with ⟨comp, rfl⟩ | ⟨node, rfl, hwell⟩
  · trivial
  · exact hwell.toJson

/-! ### Migrated values -/

namespace Dialect

variable (d : Dialect)

theorem wellFormed_layoutMember {ms : Members} (h : (Json.obj ms).WellFormed) :
    (Json.obj (d.layoutMember ms)).WellFormed := by
  apply Json.wellFormed_obj_iff.2
  constructor
  · exact (keys_optionalMember_sublist "layout" _ _).nodup (by simp)
  · intro m hm
    obtain ⟨layout, hlayout, hvalue⟩ := mem_optionalMember hm
    rw [hvalue]
    exact Table.wellFormed_of_layout? h hlayout

theorem mem_migrateMembers {ms : Members} {m : String × Json} (h : m ∈ d.migrateMembers ms) :
    ∃ v, (m.1, v) ∈ ms ∧ m.2 = d.migrate (Role.ofKeyword m.1) v := by
  induction ms with
  | nil => cases h
  | cons n ms ih =>
    obtain ⟨k, v⟩ := n
    rw [migrateMembers] at h
    split at h
    · obtain ⟨w, hw, hvalue⟩ := ih h
      exact ⟨w, List.mem_cons_of_mem _ hw, hvalue⟩
    · rcases List.mem_cons.1 h with rfl | hrest
      · exact ⟨v, List.mem_cons_self, rfl⟩
      · obtain ⟨w, hw, hvalue⟩ := ih hrest
        exact ⟨w, List.mem_cons_of_mem _ hw, hvalue⟩

theorem migrateEntries_eq_map (ms : Members) :
    d.migrateEntries ms = ms.map (fun m => (m.1, d.migrate .schema m.2)) := by
  induction ms with
  | nil => rfl
  | cons m ms ih =>
    obtain ⟨k, v⟩ := m
    rw [migrateEntries, ih, List.map_cons]

theorem wellFormed_migrateSchema {ms : Members} (h : (Json.obj ms).WellFormed)
    (ih : ∀ m ∈ ms, ∀ role, m.2.WellFormed → (d.migrate role m.2).WellFormed) :
    (Json.obj (d.migrateMembers ms ++ d.layoutMember ms)).WellFormed := by
  have hms := Json.wellFormed_obj_iff.1 h
  apply Json.wellFormed_obj_append _ (d.wellFormed_layoutMember h)
  · intro key hkey hold
    rw [keys_migrateMembers, List.mem_filter] at hold
    rcases d.keys_layoutMember ms with hnone | ⟨hlayout, hnew, -⟩
    · rw [hnone] at hkey
      cases hkey
    · rw [hlayout, List.mem_singleton] at hkey
      exact hnew (hkey ▸ hold.1)
  · apply Json.wellFormed_obj_iff.2
    constructor
    · rw [keys_migrateMembers]
      exact hms.1.filter _
    · intro m hm
      obtain ⟨v, hv, hvalue⟩ := d.mem_migrateMembers hm
      rw [hvalue]
      exact ih _ hv _ (hms.2 _ hv)

end Dialect

theorem Json.WellFormed.withLabel {v : Json} (h : v.WellFormed) : v.withLabel.WellFormed := by
  cases v with
  | obj element =>
    rw [Json.withLabel, attachLabel]
    cases hlabel : (labelling element).label? with
    | none => exact h
    | some label =>
      apply Json.wellFormed_obj_append h
      · simp [Json.WellFormed, Json.MembersWellFormed, Members.keys, OneOfLayout.toJson]
      · intro key hkey hold
        rw [List.mem_singleton.1 hkey, ← Members.has_iff_mem_keys] at hold
        simp [labelling, hold, Labelling.label?] at hlabel
  | null | bool | num | str | arr => exact h

/-- Migrating a value repeats no key. -/
theorem Json.WellFormed.migrate {v : Json} (h : v.WellFormed) (d : Dialect) (role : Role) :
    (d.migrate role v).WellFormed := by
  induction v using Json.induction_on generalizing role with
  | null | bool | num | str => cases role <;> exact h
  | arr xs ih =>
    have helements : (Json.arr (d.migrateElements xs)).WellFormed := by
      rw [Dialect.migrateElements_eq_map]
      apply Json.wellFormed_arr_iff.2
      intro y hy
      obtain ⟨x, hx, rfl⟩ := List.mem_map.1 hy
      exact ih x hx (Json.wellFormed_arr_iff.1 h x hx) .schema
    cases role with
    | schema | schemaMap | verbatim => exact h
    | schemaList => exact helements
    | schemaOrList => exact helements
    | labelledList =>
      apply Json.wellFormed_arr_iff.2
      intro y hy
      obtain ⟨x, hx, rfl⟩ := List.mem_map.1 hy
      exact (Json.wellFormed_arr_iff.1 helements x hx).withLabel
  | obj ms ih =>
    have hschema := d.wellFormed_migrateSchema h (fun m hm role hv => ih m hm hv role)
    cases role with
    | schema => exact hschema
    | schemaOrList => exact hschema
    | schemaMap =>
      have hms := Json.wellFormed_obj_iff.1 h
      apply Json.wellFormed_obj_iff.2
      constructor
      · rw [Dialect.keys_migrateEntries]
        exact hms.1
      · intro m hm
        rw [Dialect.migrateEntries_eq_map] at hm
        obtain ⟨n, hn, rfl⟩ := List.mem_map.1 hm
        exact ih n hn (hms.2 n hn) .schema
    | schemaList | labelledList | verbatim => exact h

/-! ### A run -/

section Run

variable {document : Json} {m : Migration}

theorem Dialect.wellFormed_walk {d : Dialect} (hdocument : document.WellFormed)
    (h : (d.walk document).result = .ok m) : m.schema.WellFormed := by
  obtain ⟨arena, hschema, -, hentries⟩ := exists_arena_of_walk h
  rw [hschema]
  apply Json.wellFormed_splice (hdocument.migrate d .schema)
  intro entry hentry
  obtain ⟨ref, -, -, -, target, htarget, hvalue⟩ := hentries entry (mem_byDepth.1 hentry)
  rw [hvalue]
  exact (hdocument.at htarget).migrate d .schema

theorem Json.WellFormed.stamped {v : Json} (h : v.WellFormed) (id : String) :
    (v.stamped id).WellFormed := by
  cases v with
  | obj root =>
    rw [Json.stamped, stampRootId]
    split
    · exact h
    · rename_i hid
      rw [Members.has_iff_mem_keys] at hid
      apply Json.wellFormed_obj_append h
      · simp [Json.WellFormed, Json.MembersWellFormed, Members.keys]
      · intro key hkey
        rw [List.mem_singleton.1 hkey]
        exact hid
  | null | bool | num | str | arr => exact h

/-- A run makes a document without repeated keys of one. -/
theorem Transformer.wellFormed_run {t : Transformer} (hdocument : document.WellFormed)
    (h : (t.run document).result = .ok m) : m.schema.WellFormed := by
  obtain ⟨schema, hwalk, hstamped⟩ := exists_walk_of_run h
  have hschema : schema.WellFormed := Dialect.wellFormed_walk hdocument hwalk
  rw [hstamped]
  exact hschema.stamped t.rootId

end Run

end Relayout
