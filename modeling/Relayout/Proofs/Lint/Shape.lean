/-
  Relayout/Proofs/Lint/Shape.lean
  ===============================
  **The layouts of a document in which a lint finds no error.**

  A lint reads every layout object and looks at its item source, so where it finds no error, a
  layout object says what it is read as, in its canonical form (`LayoutNode.Shaped`).  It takes
  whatever can be read: a descriptor as an array of its fields passes, and so does a kind of
  evaluation as an object, neither of which is written back as it stood
  (`Json.not_layoutsReproduced_conditionedDocument`).
-/
import Relayout.Proofs.Layout.Canonical
import Relayout.Proofs.Layout.Codec
import Relayout.Proofs.Lint.Located

namespace Relayout

namespace Json

/-- A descriptor in the documented spelling: an object with a text, and with the name of a kind of
    evaluation if one is given. -/
def IsDescriptor (v : Json) : Prop :=
  ∃ (ms : Members) (expr : String), v = .obj ms ∧ ms.get? "expr" = some (.str expr) ∧
    ∀ type, ms.get? "type" = some type → type = .str "js-expr" ∨ type = .str "js-tpl"

/-- Read as a layout and written again, a value comes back by its known members, with its
    descriptors in a form of their own. -/
def Reproduced (descriptor : Json → Json) (v : Json) : Prop :=
  ∃ layout, LayoutNode.ofJson v = .ok layout ∧ layout.toJson = LayoutNode.form descriptor v

/-- Every layout in a document is a name, or an object that comes back. -/
def LayoutsReproduced (descriptor : Json → Json) (document : Json) : Prop :=
  ∀ node ∈ document.objects, ∀ v, Members.get? node "layout" = some v →
    (∃ name, v = .str name) ∨ ((∃ fields, v = .obj fields) ∧ v.Reproduced descriptor)

end Json

/-- An item source has a text to evaluate and no URL, or a URL that is a descriptor and no text. -/
inductive ItemSource.OneOrigin (ms : Members) : Prop where
  | expr {text : String} : ms.get? "expr" = some (.str text) → ms.get? "url" = none → OneOrigin ms
  | url {url : Members} {text : String} : ms.get? "expr" = none →
    ms.get? "url" = some (.obj url) → url.get? "expr" = some (.str text) →
    (Descriptor.canonical (.obj url)).IsDescriptor → OneOrigin ms

/-- A layout object of the shape that the contract asks for. -/
structure LayoutNode.Shaped (fields : Members) : Prop where
  /-- It comes back, with its descriptors in the documented spelling. -/
  reproduced : (Json.obj fields).Reproduced Descriptor.canonical
  /-- Its condition is a descriptor. -/
  cond : ∀ cond, fields.present? "cond" = some cond → (Descriptor.canonical cond).IsDescriptor
  /-- Its item source is an object and keeps its one origin. -/
  getItems : ∀ source, fields.get? "getItems" = some source →
    ∃ ms, source = .obj ms ∧ ItemSource.OneOrigin ms

/-! ### What is read without an error -/

theorem Descriptor.isDescriptor_toJson (d : Descriptor) : d.toJson.IsDescriptor := by
  refine ⟨_, d.expr, rfl, rfl, ?_⟩
  intro type htype
  have hkind : d.type.map ExprType.toJson = some type := by
    simpa [Members.get?, Members.get?_append] using htype
  obtain ⟨kind, -, rfl⟩ := Option.map_eq_some_iff.1 hkind
  cases kind with
  | expression => exact Or.inl rfl
  | template => exact Or.inr rfl

theorem Descriptor.isDescriptor_canonical {v : Json} {d : Descriptor} (h : ofJson v = .ok d) :
    (canonical v).IsDescriptor :=
  toJson_of_ofJson h ▸ d.isDescriptor_toJson

namespace Contract

variable {node fields ms : Members} {p : Pointer}

/-- No error is among findings. -/
def Errorless (findings : List Finding) : Prop := ∀ finding ∈ findings, finding.error? = none

theorem not_errorless_error {cause : LintError} : ¬ Errorless [.error cause p] := by
  intro h
  cases h _ List.mem_cons_self

/-- A URL about which no error is found has a text. -/
theorem expr_of_checkUrl {url : Json} (h : Errorless (checkUrl p url)) :
    ∃ (members : Members) (text : String), url = .obj members ∧
      members.get? "expr" = some (.str text) := by
  unfold checkUrl at h
  split at h
  · exact absurd h not_errorless_error
  · rename_i text htext
    obtain ⟨v, hget, hstr⟩ := Option.bind_eq_some_iff.1 htext
    cases url with
    | obj members => exact ⟨members, text, rfl, Json.asString?_eq_some_iff.1 hstr ▸ hget⟩
    | null | bool | num | str | arr => cases hget

/-- A source about which no error is found is an object with one origin. -/
theorem origin_of_checkSource {source : Json} (h : Errorless (checkSource node p source)) :
    ∃ ms : Members, source = .obj ms ∧
      ((∃ expr, ms.get? "expr" = some expr ∧ ms.get? "url" = none) ∨
        ms.get? "expr" = none ∧ ∃ (url : Members) (text : String),
          ms.get? "url" = some (.obj url) ∧ url.get? "expr" = some (.str text)) := by
  cases source with
  | obj ms =>
    refine ⟨ms, rfl, ?_⟩
    rw [checkSource] at h
    have horigin := (List.forall_mem_append.1 h).1
    split at horigin
    · exact absurd horigin not_errorless_error
    · exact absurd horigin not_errorless_error
    · rename_i url hexpr hurl
      obtain ⟨members, text, rfl, htext⟩ := expr_of_checkUrl horigin
      exact Or.inr ⟨hexpr, members, text, hurl, htext⟩
    · rename_i expr hexpr hurl
      exact Or.inl ⟨expr, hexpr, hurl⟩
  | null | bool | num | str | arr => exact absurd h not_errorless_error

theorem url_eq_none_or_of_checkSource (h : Errorless (checkSource node p (.obj ms))) :
    ms.get? "url" = none ∨ ms.get? "expr" = none := by
  obtain ⟨_, hms, ⟨_, _, hurl⟩ | ⟨hexpr, _⟩⟩ := origin_of_checkSource h
  · cases hms
    exact Or.inl hurl
  · cases hms
    exact Or.inr hexpr

/-- A source that can be read as well has a text or a URL of the documented spelling. -/
theorem oneOrigin_of_checkSource {s : ItemSource} (h : Errorless (checkSource node p (.obj ms)))
    (hread : ItemSource.ofJson (.obj ms) = .ok s) : ItemSource.OneOrigin ms := by
  -- The reading says which origin there is, the check that there is no other.
  obtain ⟨_, hms, horigin⟩ := origin_of_checkSource h
  cases hms
  obtain ⟨_, -, hread⟩ := bind_eq_ok_iff.1 hread
  obtain ⟨origin, hmembers, -⟩ := bind_eq_ok_iff.1 hread
  obtain ⟨url, descriptor, _, hurl, hdescriptor, -⟩ | ⟨text, hurl, htext, -⟩ :=
    ItemOrigin.read_of_ofMembers hmembers (url_eq_none_or_of_checkSource h)
  · obtain ⟨_, _, hnone⟩ | ⟨hexpr, members, text, hobject, htext⟩ := horigin
    · rw [hnone] at hurl
      cases hurl
    · rw [hobject] at hurl
      cases hurl
      exact .url hexpr hobject htext (Descriptor.isDescriptor_canonical hdescriptor)
  · exact .expr htext hurl

/-- A layout about which no error is found is a name or an object of the right shape. -/
theorem shaped_of_checkLayout {v : Json} (h : Errorless (checkLayout node p v)) :
    (∃ name, v = .str name) ∨ ∃ fields, v = .obj fields ∧ LayoutNode.Shaped fields := by
  cases v with
  | str name => exact Or.inl ⟨name, rfl⟩
  | obj fields =>
    rw [checkLayout] at h
    obtain ⟨hread, hsource⟩ := List.forall_mem_append.1 (List.forall_mem_append.1 h).1
    obtain ⟨layout, hlayout⟩ : ∃ layout, LayoutNode.ofJson (.obj fields) = .ok layout := by
      cases hresult : LayoutNode.ofJson (.obj fields) with
      | ok layout => exact ⟨layout, rfl⟩
      | error cause =>
        rw [hresult] at hread
        exact absurd hread not_errorless_error
    have hfrom := LayoutNode.readFrom_of_ofJson hlayout
    have hchecked {source : Json} (hget : Members.get? fields "getItems" = some source) :
        Errorless (checkSource node (p.push "getItems") source) := by
      rwa [hget] at hsource
    refine Or.inr ⟨fields, rfl, ?_⟩
    constructor
    -- That there is one origin only is what a reading does not ask for.
    case reproduced =>
      refine ⟨layout, hlayout, LayoutNode.toJson_of_ofJson hlayout ?_⟩
      exact fun source hget => url_eq_none_or_of_checkSource (hchecked hget)
    case cond =>
      intro cond hcond
      obtain ⟨hget, hnull⟩ := Members.present?_eq_some_iff.1 hcond
      have hoptional := hfrom.cond
      rw [hget] at hoptional
      obtain ⟨descriptor, hdescriptor, -⟩ := Decode.read_of_optional hoptional hnull
      exact Descriptor.isDescriptor_canonical hdescriptor
    case getItems =>
      intro source hget
      obtain ⟨ms, hms, -⟩ := origin_of_checkSource (hchecked hget)
      subst hms
      have hoptional := hfrom.getItems
      rw [hget] at hoptional
      obtain ⟨s, hs, -⟩ := Decode.read_of_optional hoptional (by simp)
      exact ⟨ms, rfl, oneOrigin_of_checkSource (hchecked hget) hs⟩
  | null | bool | num | arr => exact absurd h not_errorless_error

/-- What is found about an object in a value is found in the value. -/
theorem exists_checkNode_subset {v : Json} (hnode : node ∈ v.objects) (p : Pointer) :
    ∃ q, checkNode node q ⊆ check p v := by
  induction v using Json.induction_on generalizing p with
  | null | bool | num | str => cases hnode
  | arr xs ih =>
    obtain ⟨x, hx, hinside⟩ := Json.mem_objects_arr.1 hnode
    obtain ⟨i, hi⟩ := List.mem_iff_getElem?.1 hx
    obtain ⟨q, hq⟩ := ih x hx hinside (p.element i)
    refine ⟨q, fun finding hfinding => ?_⟩
    rw [check, checkElements_eq]
    exact List.mem_flatMap.2 ⟨(x, i), List.mem_zipIdx_iff_getElem?.2 hi, hq hfinding⟩
  | obj ms ih =>
    rw [check, checkMembers_eq]
    rcases Json.mem_objects_obj.1 hnode with rfl | ⟨m, hm, hinside⟩
    · exact ⟨p, List.subset_append_left _ _⟩
    · obtain ⟨q, hq⟩ := ih m hm hinside (p.member m.1)
      refine ⟨q, fun finding hfinding => List.mem_append_right _ ?_⟩
      exact List.mem_flatMap.2 ⟨m, hm, List.mem_append_right _ (hq hfinding)⟩

end Contract

namespace Json

variable {document : Json}

/-- **Where a lint finds no error, every layout has the shape that the contract asks for**: it is a
    name, or an object that comes back in canonical form when it is read and written again. -/
theorem shaped_of_isClean (hclean : document.lint.isClean = true) :
    ∀ node ∈ document.objects, ∀ v, Members.get? node "layout" = some v →
      (∃ name, v = .str name) ∨ ∃ fields, v = .obj fields ∧ LayoutNode.Shaped fields := by
  intro node hnode v hlayout
  have hfindings : Contract.Errorless document.lint.findings :=
    List.filterMap_eq_nil_iff.1 (List.isEmpty_iff.1 hclean)
  obtain ⟨q, hq⟩ := Contract.exists_checkNode_subset hnode .root
  have hchecked : Contract.Errorless (Contract.checkLayout node (q.push "layout") v) := by
    intro finding hfinding
    refine hfindings finding (List.mem_append_left _ (hq ?_))
    rw [Contract.checkNode, hlayout]
    exact hfinding
  exact Contract.shaped_of_checkLayout hchecked

end Json

/-- A document whose items are fetched if a condition holds, written as an array. -/
def fetchedDocument : Json :=
  .obj [("layout", .obj [("note", .num (.int 1)), ("label", .null), ("cond", .arr [.str "a"]),
    ("getItems", .obj [("url", .obj [("type", .str "js-tpl"), ("expr", .str "/items")]),
      ("itemKey", .str "id")])])]

theorem Json.shaped_of_isClean_fetchedDocument : fetchedDocument.lint.isClean = true ∧
    ∀ node ∈ fetchedDocument.objects, ∀ v, Members.get? node "layout" = some v →
      (∃ name, v = .str name) ∨ ∃ fields, v = .obj fields ∧ LayoutNode.Shaped fields := by
  have hclean : fetchedDocument.lint.isClean = true := by decide
  exact ⟨hclean, Json.shaped_of_isClean hclean⟩

/-! ### Spellings that are not written back -/

/-- A document with nothing but a layout with a condition. -/
def conditionedDocument (cond : Json) : Json := .obj [("layout", .obj [("cond", cond)])]

theorem Json.not_layoutsReproduced_of_ne {cond : Json} {layout : LayoutNode}
    (hread : LayoutNode.ofJson (.obj [("cond", cond)]) = .ok layout)
    (hne : layout.toJson ≠ LayoutNode.form Descriptor.trimmed (.obj [("cond", cond)])) :
    ¬ (conditionedDocument cond).LayoutsReproduced Descriptor.trimmed := by
  intro h
  have hlayout := h _ (mem_objects_obj.2 (Or.inl rfl)) _ rfl
  obtain ⟨name, hname⟩ | ⟨-, other, hother, hform⟩ := hlayout
  · cases hname
  · rw [hread] at hother
    cases hother
    exact hne hform

/-- A lint takes a condition that is an array, and a kind of evaluation that is an object; both come
    back in another spelling. -/
theorem Json.not_layoutsReproduced_conditionedDocument :
    ((conditionedDocument (.arr [.str "a"])).lint.isClean = true ∧
      ¬ (conditionedDocument (.arr [.str "a"])).LayoutsReproduced Descriptor.trimmed) ∧
    ((conditionedDocument (.obj [("expr", .str "a"),
        ("type", .obj [("js-expr", .null)])])).lint.isClean = true ∧
      ¬ (conditionedDocument (.obj [("expr", .str "a"),
        ("type", .obj [("js-expr", .null)])])).LayoutsReproduced Descriptor.trimmed) := by
  refine ⟨⟨by decide, ?_⟩, ⟨by decide, ?_⟩⟩
  · have hread : LayoutNode.ofJson (.obj [("cond", .arr [.str "a"])])
        = .ok { cond := some { expr := "a" } } := by decide
    exact not_layoutsReproduced_of_ne hread (by decide)
  · have hread : LayoutNode.ofJson (.obj [("cond", .obj [("expr", .str "a"),
        ("type", .obj [("js-expr", .null)])])])
          = .ok { cond := some (Descriptor.ofExpression "a") } := by decide
    exact not_layoutsReproduced_of_ne hread (by decide)

end Relayout
