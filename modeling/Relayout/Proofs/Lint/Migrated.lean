/-
  Relayout/Proofs/Lint/Migrated.lean
  ==================================
  **What a lint finds in a migrated schema.**

  A lint looks at every layout of a document, wherever it stands and whatever put it there.  A
  layout that a run adds is one that can be read back, whose source has either an expression or
  a URL, and whose URL a detector wrote (`Table.sound_of_layout?`).  So if a document has no
  layouts of its own, what a run makes of it breaks the contract in one way at most: a key or
  title of the listed items is not among their properties (`Transformer.lint_run`).
-/
import Relayout.Lint.Contract
import Relayout.Proofs.Json.Objects
import Relayout.Proofs.Layout.Codec
import Relayout.Proofs.Migration.Yield
import Relayout.Proofs.Template.Promotion

namespace Relayout

/-- What a lint may find in a migrated schema: an item property that is not known, an extension
    left over where no walk came, and a reference with fewer segments than a detector asks for. -/
def Finding.Admitted (detector : Template.Detector) : Finding → Prop
  | .error (.unknownItemProperty _ _) _ => True
  | .error _ _ => False
  | .warning (.legacyExtension _) _ => True
  | .warning (.unpromotedPlaceholder _) _ => 2 < detector.minSegments

/-- Whatever node carries a layout, and wherever, only what is admitted is found about it. -/
def Contract.Sound (detector : Template.Detector) (layout : Json) : Prop :=
  ∀ node p, ∀ finding ∈ checkLayout node p layout, finding.Admitted detector

namespace Json

/-- The layout of each object in a value is sound. -/
def LaidOut (detector : Template.Detector) (v : Json) : Prop :=
  ∀ node ∈ v.objects, ∀ layout, Members.get? node "layout" = some layout →
    Contract.Sound detector layout

/-- No object in a value has a layout. -/
def WithoutLayout (v : Json) : Prop := ∀ node ∈ v.objects, "layout" ∉ Members.keys node

instance (v : Json) : Decidable v.WithoutLayout :=
  inferInstanceAs (Decidable (∀ node ∈ v.objects, "layout" ∉ Members.keys node))

end Json

namespace Contract

variable {detector : Template.Detector}

/-! ### Findings -/

theorem admitted_checkItemFields {node fields : Members} {p : Pointer} :
    ∀ finding ∈ checkItemFields node fields p, finding.Admitted detector := by
  have hfield (field : String) :
      ∀ finding ∈ checkItemField node fields p field, finding.Admitted detector := by
    intro finding hfinding
    unfold checkItemField at hfinding
    split at hfinding
    · split at hfinding
      · cases hfinding
      · rw [List.mem_singleton.1 hfinding]
        trivial
    · cases hfinding
  exact List.forall_mem_append.2 ⟨hfield "itemKey", hfield "itemTitle"⟩

theorem admitted_checkKey {key : String} {p : Pointer} :
    ∀ finding ∈ checkKey key p, finding.Admitted detector := by
  intro finding hfinding
  unfold checkKey at hfinding
  split at hfinding
  · rw [List.mem_singleton.1 hfinding]
    trivial
  · cases hfinding

/-- In a value whose layouts are sound, only what is admitted is found. -/
theorem admitted_check {v : Json} (h : v.LaidOut detector) (p : Pointer) :
    ∀ finding ∈ check p v, finding.Admitted detector := by
  induction v using Json.induction_on generalizing p with
  | null | bool | num | str => exact nofun
  | arr xs ih =>
    have helements (i : Nat) : ∀ finding ∈ checkElements p i xs, finding.Admitted detector := by
      have hxs : ∀ x ∈ xs, x.LaidOut detector :=
        fun x hx node hnode => h node (Json.mem_objects_arr.2 ⟨x, hx, hnode⟩)
      clear h
      induction xs generalizing i with
      | nil => exact nofun
      | cons x xs ihxs =>
        obtain ⟨hx, hrest⟩ := List.forall_mem_cons.1 hxs
        obtain ⟨ihx, ihrest⟩ := List.forall_mem_cons.1 ih
        exact List.forall_mem_append.2 ⟨ihx hx _, ihxs ihrest (i + 1) hrest⟩
    exact helements 0
  | obj ms ih =>
    have hnode : ∀ finding ∈ checkNode ms p, finding.Admitted detector := by
      intro finding hfinding
      unfold checkNode at hfinding
      split at hfinding
      · rename_i layout hlayout
        exact h ms (Json.mem_objects_obj.2 (Or.inl rfl)) layout hlayout _ _ finding hfinding
      · cases hfinding
    have hmembers : ∀ finding ∈ checkMembers p ms, finding.Admitted detector := by
      have hms : ∀ m ∈ ms, m.2.LaidOut detector :=
        fun m hm node hnode => h node (Json.mem_objects_obj.2 (Or.inr ⟨m, hm, hnode⟩))
      clear h hnode
      induction ms with
      | nil => exact nofun
      | cons m ms ihms =>
        obtain ⟨hm, hrest⟩ := List.forall_mem_cons.1 hms
        obtain ⟨ihm, ihrest⟩ := List.forall_mem_cons.1 ih
        exact List.forall_mem_append.2
          ⟨List.forall_mem_append.2 ⟨admitted_checkKey, ihm hm _⟩, ihms ihrest hrest⟩
    exact List.forall_mem_append.2 ⟨hnode, hmembers⟩

/-! ### Layouts -/

variable {s : Site}

/-- A URL that a detector wrote has something left in it only if the detector asks for more than
    two segments. -/
theorem admitted_checkUrl {descriptor : Descriptor} {raw : String}
    (h : descriptor.expr = (detector.detect raw .url).expr) (p : Pointer) :
    ∀ finding ∈ checkUrl p descriptor.toJson, finding.Admitted detector := by
  intro finding hfinding
  have hexpr : (descriptor.toJson.get? "expr").bind Json.asString? = some descriptor.expr := rfl
  rw [checkUrl, hexpr] at hfinding
  simp only at hfinding
  split at hfinding
  · rename_i hleft
    rw [List.mem_singleton.1 hfinding]
    by_contra hsegments
    rw [h, detector.hasUnpromoted_detect_eq_false (Nat.le_of_not_lt hsegments)] at hleft
    cases hleft
  · cases hfinding

theorem admitted_checkSource {source : ItemSource}
    (hurl : ∀ descriptor itemsProp, source.origin = .url descriptor itemsProp →
      ∃ raw, descriptor.expr = (detector.detect raw .url).expr)
    (node : Members) (p : Pointer) :
    ∀ finding ∈ checkSource node p source.toJson, finding.Admitted detector := by
  obtain ⟨origin, itemKey, itemTitle⟩ := source
  refine List.forall_mem_append.2 ⟨?_, admitted_checkItemFields⟩
  cases origin with
  | url descriptor itemsProp =>
    obtain ⟨raw, hraw⟩ := hurl descriptor itemsProp rfl
    simp only [ItemOrigin.toMembers, List.cons_append, Members.get?, Members.get?_append,
      get?_optionalMember, String.reduceEq, if_true, if_false, Option.or_self]
    exact admitted_checkUrl hraw _
  | expr text =>
    simp only [ItemOrigin.toMembers, List.cons_append, Members.get?, Members.get?_append,
      get?_optionalMember, String.reduceEq, if_true, if_false, Option.or_self, List.nil_append]
    intro finding hfinding
    cases hfinding

/-- A layout that is drawn from a node is sound. -/
theorem sound_of_drawnFrom {node : LayoutNode} (h : node.DrawnFrom s) :
    Sound s.detector node.toJson := by
  intro owner p
  have hcols : node.cols ≠ some .null := by
    intro hnull
    rcases (h.cols _ hnull).2 with ⟨n, hn⟩ | ⟨sizes, hsizes⟩
    · cases hn
    · cases hsizes
  have hread : ∀ fields, node.toJson = .obj fields → LayoutNode.ofJson (.obj fields) = .ok node :=
    fun fields hfields => hfields ▸ LayoutNode.ofJson_toJson hcols
  have hsource : ∀ fields, node.toJson = .obj fields →
      Members.get? fields "getItems" = node.getItems.map ItemSource.toJson := by
    rintro _ ⟨⟩
    simp [Members.get?_append]
  obtain ⟨fields, hfields, -⟩ := node.exists_toJson_eq
  rw [hfields, checkLayout, hread fields hfields, hsource fields hfields]
  refine List.forall_mem_append.2 ⟨List.forall_mem_append.2 ⟨nofun, ?_⟩, admitted_checkItemFields⟩
  cases hitems : node.getItems with
  | none => exact nofun
  | some source =>
    have hurl := fun descriptor itemsProp => h.url source descriptor itemsProp hitems
    exact admitted_checkSource hurl owner _

/-- The layout of a node is sound. -/
theorem sound_of_layout? {table : Table} {layout : Layout} (h : table.layout? s = some layout) :
    Sound s.detector layout.toJson := by
  obtain ⟨node, hdrawn, hfinal⟩ := Table.drawnFrom_of_layout? h
  rcases LayoutNode.of_finalize_eq_some hfinal with ⟨comp, -, rfl⟩ | rfl
  · intro owner p
    exact nofun
  · exact sound_of_drawnFrom hdrawn

end Contract

namespace Json.WithoutLayout

/-! ### Values without layouts -/

theorem laidOut {v : Json} (h : v.WithoutLayout) (detector : Template.Detector) :
    v.LaidOut detector := by
  intro node hnode layout hlayout
  rw [(Members.get?_eq_none_iff node "layout").2 (h node hnode)] at hlayout
  cases hlayout

theorem obj {ms : Members} (hkey : "layout" ∉ ms.keys) (hms : ∀ m ∈ ms, m.2.WithoutLayout) :
    (Json.obj ms).WithoutLayout := by
  intro node hnode
  rcases mem_objects_obj.1 hnode with rfl | ⟨m, hm, hinside⟩
  · exact hkey
  · exact hms m hm node hinside

theorem of_mem {ms : Members} (h : (Json.obj ms).WithoutLayout) {m : String × Json}
    (hm : m ∈ ms) : m.2.WithoutLayout :=
  fun node hnode => h node (mem_objects_obj.2 (Or.inr ⟨m, hm, hnode⟩))

theorem of_mem_arr {xs : List Json} (h : (Json.arr xs).WithoutLayout) {x : Json} (hx : x ∈ xs) :
    x.WithoutLayout :=
  fun node hnode => h node (mem_objects_arr.2 ⟨x, hx, hnode⟩)

theorem not_mem_keys {ms : Members} (h : (Json.obj ms).WithoutLayout) : "layout" ∉ ms.keys :=
  h ms (mem_objects_obj.2 (Or.inl rfl))

theorem descriptor (d : Descriptor) : d.toJson.WithoutLayout := by
  obtain ⟨expr, type, isPure⟩ := d
  refine obj ?_ ?_
  · cases type <;> cases isPure <;> simp [optionalMember, Members.keys]
  · cases type <;> cases isPure <;>
      simp [optionalMember, WithoutLayout, objects, ExprType.toJson]

theorem itemSource (s : ItemSource) : s.toJson.WithoutLayout := by
  obtain ⟨origin, itemKey, itemTitle⟩ := s
  cases origin with
  | url url itemsProp =>
    have hurl := descriptor url
    refine obj ?_ ?_
    · cases itemsProp <;> cases itemKey <;> cases itemTitle <;>
        simp [ItemOrigin.toMembers, optionalMember, Members.keys]
    · cases itemsProp <;> cases itemKey <;> cases itemTitle <;>
        simp [ItemOrigin.toMembers, optionalMember, hurl] <;> simp [WithoutLayout, objects]
  | expr expr =>
    refine obj ?_ ?_
    · cases itemKey <;> cases itemTitle <;>
        simp [ItemOrigin.toMembers, optionalMember, Members.keys]
    · cases itemKey <;> cases itemTitle <;>
        simp [ItemOrigin.toMembers, optionalMember, WithoutLayout, objects]

/-- Inside a layout drawn from a node without layouts there is none either. -/
theorem layoutNode {s : Site} (hnode : (Json.obj s.node).WithoutLayout) {node : LayoutNode}
    (h : node.DrawnFrom s) : node.toJson.WithoutLayout := by
  have hvalue {key : String} {v : Json} (hget : s.node.get? key = some v) : v.WithoutLayout :=
    hnode.of_mem (Members.mem_of_get?_eq_some hget)
  obtain ⟨ms, hms, hkeys⟩ := node.exists_toJson_eq
  rw [hms]
  refine obj (fun hmem => absurd (hkeys.subset hmem) (by decide)) (fun m hm => ?_)
  rcases LayoutNode.value_cases hms hm with
    ⟨s, hs⟩ | ⟨d, hd⟩ | ⟨s, hs⟩ | ⟨props, hprops, hm⟩ | hcols
  · rw [hs]
    exact nofun
  · exact hd ▸ descriptor d
  · exact hs ▸ itemSource s
  · exact hm ▸ hvalue (h.props props hprops)
  · exact hvalue (h.cols m.2 hcols).1

end Json.WithoutLayout

/-- Inside the layout of a node without layouts there is none either. -/
theorem Table.withoutLayout_of_layout? {table : Table} {s : Site}
    (hnode : (Json.obj s.node).WithoutLayout) {layout : Layout}
    (h : table.layout? s = some layout) : layout.toJson.WithoutLayout := by
  obtain ⟨node, hdrawn, hfinal⟩ := drawnFrom_of_layout? h
  rcases LayoutNode.of_finalize_eq_some hfinal with ⟨comp, -, rfl⟩ | rfl
  · exact nofun
  · exact .layoutNode hnode hdrawn

/-! ### Migrated values -/

namespace Dialect

variable {d : Dialect}

/-- Inside what an object without layouts gains there is no layout. -/
theorem Gained.withoutLayout {ms : Members} (hms : (Json.obj ms).WithoutLayout)
    {n : String × Json} (h : d.Gained ms n) : n.2.WithoutLayout := by
  rcases h.2 with ⟨layout, hlayout, rfl⟩ | ⟨label, rfl⟩
  · exact Table.withoutLayout_of_layout? hms hlayout
  · exact .obj (by simp [Members.keys]) (by simp [Json.WithoutLayout, Json.objects])

/-- The layout that an object gains is sound. -/
theorem Gained.sound {ms : Members} {layout : Json} (h : d.Gained ms ("layout", layout)) :
    Contract.Sound d.detector layout := by
  rcases h.2 with ⟨found, hfound, heq⟩ | ⟨label, heq⟩
  · cases heq
    exact Contract.sound_of_layout? hfound
  · simp at heq

/-- The layouts in what a value without layouts yields are sound. -/
theorem Yields.laidOut {v w : Json} (h : d.Yields v w) (hv : v.WithoutLayout) :
    w.LaidOut d.detector := by
  induction v using Json.induction_on generalizing w with
  | null | bool | num | str =>
    cases h
    exact hv.laidOut d.detector
  | arr xs ih =>
    cases h with
    | arr hxs =>
      intro node hnode
      obtain ⟨y, hy, hinside⟩ := Json.mem_objects_arr.1 hnode
      obtain ⟨x, hx, hyields⟩ := exists_of_forall₂ hxs hy
      exact ih x hx hyields (hv.of_mem_arr hx) node hinside
  | obj ms ih =>
    obtain ⟨ns, rfl⟩ := h.exists_obj
    intro node hnode layout hlayout
    rcases Json.mem_objects_obj.1 hnode with rfl | ⟨n, hn, hinside⟩
    · rcases h.get?_cases hlayout with ⟨a, ha, -⟩ | hgained
      · rw [(Members.get?_eq_none_iff ms "layout").2 hv.not_mem_keys] at ha
        cases ha
      · exact hgained.sound
    · rcases h.mem_cases hn with ⟨a, ha, hyields⟩ | hgained
      · exact ih _ ha hyields (hv.of_mem ha) node hinside layout hlayout
      · exact (hgained.withoutLayout hv).laidOut _ node hinside layout hlayout

end Dialect

/-- An identity is no layout. -/
theorem Json.LaidOut.stamped {detector : Template.Detector} {v : Json} (h : v.LaidOut detector)
    (id : String) : (v.stamped id).LaidOut detector := by
  cases v with
  | obj root =>
    rw [Json.stamped, stampRootId]
    split
    · exact h
    · intro node hnode layout hlayout
      rcases Json.mem_objects_obj.1 hnode with rfl | ⟨m, hm, hinside⟩
      · rw [Members.get?_append] at hlayout
        refine h root (Json.mem_objects_obj.2 (Or.inl rfl)) layout ?_
        simpa [Members.get?] using hlayout
      · rcases List.mem_append.1 hm with hold | hnew
        · exact h node (Json.mem_objects_obj.2 (Or.inr ⟨m, hold, hinside⟩)) layout hlayout
        · rw [List.mem_singleton.1 hnew] at hinside
          cases hinside
  | null | bool | num | str | arr => exact h

/-- A root that has been given an identity does not lack one. -/
theorem Contract.checkRoot_stamped (root : Members) (id : String) :
    checkRoot ((Json.obj root).stamped id) = [] := by
  have hid : (((Json.obj root).stamped id).get? "$id").isNone = false := by
    rw [Json.stamped, stampRootId, Json.get?]
    split
    · rename_i hhas
      rw [Members.has_iff_mem_keys] at hhas
      cases hget : Members.get? root "$id" with
      | none => exact absurd hhas ((Members.get?_eq_none_iff root "$id").1 hget)
      | some v => rfl
    · rw [Members.get?_append]
      cases Members.get? root "$id" <;> rfl
  rw [checkRoot, hid, Bool.and_false, if_neg Bool.false_ne_true]

/-! ### Reports -/

theorem LintReport.code_of_mem_errors {detector : Template.Detector} {report : LintReport}
    (h : ∀ finding ∈ report.findings, finding.Admitted detector) :
    ∀ error ∈ report.errors, error.1.code = "UNKNOWN_ITEM_PROPERTY" := by
  intro error herror
  obtain ⟨finding, hfinding, heq⟩ := List.mem_filterMap.1 herror
  have hadmitted := h finding hfinding
  cases finding with
  | warning cause p => cases heq
  | error cause p =>
    cases heq
    cases cause with
    | unknownItemProperty field name => rfl
    | malformedLayout | strayLayout | sourceNotObject | sourceNotUnique | malformedUrl
    | missingRootId => cases hadmitted

theorem LintReport.code_of_mem_warnings {detector : Template.Detector} {report : LintReport}
    (h : ∀ finding ∈ report.findings, finding.Admitted detector)
    (hsegments : detector.minSegments ≤ 2) :
    ∀ warning ∈ report.warnings, warning.1.code ≠ "UNPROMOTED_PLACEHOLDER" := by
  intro warning hwarning
  obtain ⟨finding, hfinding, heq⟩ := List.mem_filterMap.1 hwarning
  have hadmitted := h finding hfinding
  cases finding with
  | error cause p => cases heq
  | warning cause p =>
    cases heq
    cases cause with
    | legacyExtension key => simp [LintWarning.code]
    | unpromotedPlaceholder expr => exact absurd hadmitted (Nat.not_lt.2 hsegments)

namespace Transformer

/-- **What a run makes of a document without layouts keeps the contract.**  The only error that
    a lint can find is an item property that is not known, and if references of two segments are
    promoted none is left over. -/
theorem lint_run {t : Transformer} {root : Members} {m : Migration}
    (hlayout : (Json.obj root).WithoutLayout) (h : (t.run (.obj root)).result = .ok m) :
    (∀ error ∈ m.schema.lint.errors, error.1.code = "UNKNOWN_ITEM_PROPERTY") ∧
      (t.dialect.detector.minSegments ≤ 2 →
        ∀ warning ∈ m.schema.lint.warnings, warning.1.code ≠ "UNPROMOTED_PLACEHOLDER") := by
  obtain ⟨schema, hwalk, hstamped⟩ := exists_walk_of_run h
  have hyields : t.dialect.Yields (.obj root) schema := Dialect.yields_walk hwalk
  obtain ⟨ns, rfl⟩ := hyields.exists_obj
  have hfindings : ∀ finding ∈ m.schema.lint.findings, finding.Admitted t.dialect.detector := by
    rw [hstamped, Json.lint, Contract.checkRoot_stamped, List.append_nil]
    exact Contract.admitted_check ((hyields.laidOut hlayout).stamped t.rootId) .root
  exact ⟨LintReport.code_of_mem_errors hfindings, LintReport.code_of_mem_warnings hfindings⟩

/-- The root of a document that fetches its items, by a key that they do not have, and refers to
    a definition with extensions of its own. -/
def sourcedRoot : Members :=
  [("type", .str "array"),
    ("items", .obj [("properties", .obj [("name", .obj [("$ref", .str "#/definitions/name")])])]),
    ("x-fromUrl", .str "/api/{form.country}/cities"), ("x-itemKey", .str "code"),
    ("definitions", .obj [("name", .obj [("x-display", .str "card"), ("x-cols", .num (.int 6))])])]

/-- What it is migrated to. -/
def sourcedMigration : Migration :=
  { schema := .obj [("type", .str "array"),
      ("items", .obj [("properties", .obj [("name", .obj [("$ref", .str "#/definitions/name")])])]),
      ("definitions", .obj [("name", .obj [("layout",
        .obj [("comp", .str "card"), ("cols", .num (.int 6))])])]),
      ("layout", .obj [("comp", .str "select"), ("getItems", .obj [("url", .obj [("expr",
        .str "/api/${form.country}/cities"), ("type", .str "js-tpl"), ("pure", .bool true)]),
        ("itemKey", .str "code")])]),
      ("$id", .str defaultRootId)]
    resolved := ["#/definitions/name"] }

theorem lint_run_sourcedRoot :
    (Json.obj sourcedRoot).WithoutLayout ∧
      (run ⟨⟨Table.builtin, {}⟩, defaultRootId, none⟩ (.obj sourcedRoot)).result
        = .ok sourcedMigration ∧
      (∀ error ∈ sourcedMigration.schema.lint.errors, error.1.code = "UNKNOWN_ITEM_PROPERTY") ∧
      ∀ warning ∈ sourcedMigration.schema.lint.warnings,
        warning.1.code ≠ "UNPROMOTED_PLACEHOLDER" := by
  have hlayout : (Json.obj sourcedRoot).WithoutLayout := by decide +kernel
  have hrun : (run ⟨⟨Table.builtin, {}⟩, defaultRootId, none⟩ (.obj sourcedRoot)).result
      = .ok sourcedMigration := Trace.result_eq_ok_of_toOption (by decide +kernel)
  obtain ⟨herrors, hwarnings⟩ := lint_run hlayout hrun
  exact ⟨hlayout, hrun, herrors, hwarnings (by decide)⟩

end Transformer

end Relayout
