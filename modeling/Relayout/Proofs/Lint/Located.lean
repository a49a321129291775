/-
  Relayout/Proofs/Lint/Located.lean
  =================================
  **A lint says where, and leaves out nothing.**

  A finding comes with the pointer that the check built on its way down, so its text leads back
  to the value that the finding is about (`Contract.about_check`).  The extensions left over are
  found member by member as the check comes to them, which is the order of the document: they
  are the claimed ones among all members that there are (`Contract.legacy_check`).  A missing
  identity of the root is found if a reference with a number sign stands anywhere
  (`Json.refersWithin_iff`).  Together this makes a lint accurate (`Json.lint_accurate`).
-/
import Relayout.Proofs.Json.Address
import Relayout.Proofs.Json.Occurrence
import Relayout.Proofs.Lint.Legacy
import Relayout.Proofs.Migration.RefTexts

namespace Relayout

namespace Json

/-! ### What findings are about -/

/-- The value at a pointer is the layout of an object. -/
def LayoutAt (document : Json) (p : Pointer) (layout : Json) : Prop :=
  ∃ (q : Pointer) (node : Members), p = q.push "layout" ∧ document.LeadsTo q (.obj node) ∧
    node.get? "layout" = some layout

/-- The value at a pointer is the item source of a layout. -/
def SourceAt (document : Json) (p : Pointer) (source : Json) : Prop :=
  ∃ (q : Pointer) (fields : Members), p = q.push "getItems" ∧ document.LayoutAt q (.obj fields) ∧
    fields.get? "getItems" = some source

/-- The value at a pointer is the URL of an item source. -/
def UrlAt (document : Json) (p : Pointer) (url : Json) : Prop :=
  ∃ (q : Pointer) (fields : Members), p = q.push "url" ∧ document.SourceAt q (.obj fields) ∧
    fields.get? "url" = some url

end Json

/-- A finding is about a value of the document, which its pointer names. -/
inductive Finding.About (document : Json) : Finding → Json → Prop where
  | layout {cause : LintError} {p : Pointer} {layout : Json} :
    document.LayoutAt p layout → cause.code = "INVALID_LAYOUT" →
    About document (.error cause p) layout
  | source {cause : LintError} {p : Pointer} {source : Json} :
    document.SourceAt p source → cause.code = "GET_ITEMS_SOURCE" →
    About document (.error cause p) source
  | url {p : Pointer} {url : Json} :
    document.UrlAt p url → About document (.error .malformedUrl p) url
  | placeholder {p : Pointer} {url : Json} {expr : String} :
    document.UrlAt p url → url.get? "expr" = some (.str expr) →
    About document (.warning (.unpromotedPlaceholder expr) p) url
  | item {p : Pointer} {fields : Members} {field name : String} :
    document.LayoutAt p (.obj fields) ∨ document.SourceAt p (.obj fields) →
    field = "itemKey" ∨ field = "itemTitle" → fields.get? field = some (.str name) →
    About document (.error (.unknownItemProperty field name) (p.push field)) (.str name)
  | extension {p : Pointer} {node : Members} {key : String} {value : Json} :
    document.LeadsTo p (.obj node) → node.get? key = some value →
    Table.builtin.recognizes key = true →
    About document (.warning (.legacyExtension key) (p.member key)) value
  | rootId : document.RefersWithin → document.get? "$id" = none →
    About document (.error .missingRootId .root) document

/-- Warnings tell of every legacy extension of a document, where it stands, in order and once. -/
structure Json.TellsLegacy (document : Json) (warnings : List (LintWarning × Pointer)) : Prop where
  /-- Each warning leads to the value of a member with a claimed key. -/
  sound : ∀ warning ∈ warnings, ∃ (place : Place) (node : Members) (key : String) (value : Json),
    warning.1 = .legacyExtension key ∧ warning.2.place = place ++ [key] ∧
      document.at? place = some (.obj node) ∧ node.get? key = some value ∧
      Table.builtin.recognizes key = true ∧ document.atText? warning.2.text = some value
  /-- No member with a claimed key is left out. -/
  complete : ∀ (place : Place) (node : Members) (key : String),
    document.at? place = some (.obj node) → key ∈ node.keys →
    Table.builtin.recognizes key = true →
    ∃ warning ∈ warnings, warning.1 = .legacyExtension key ∧ warning.2.place = place ++ [key]
  /-- They come in the order of the document. -/
  ordered : warnings.Pairwise (fun a b => document.Precedes a.2.place b.2.place)
  /-- No place comes twice. -/
  nodup : (warnings.map (fun warning => warning.2.place)).Nodup

/-- What a lint reports is located and complete. -/
structure Json.LintAccurate (document : Json) : Prop where
  /-- The legacy extensions are those that there are. -/
  legacy : document.TellsLegacy
    (document.lint.warnings.filter (fun warning => warning.1.code = "LEGACY_EXTENSION"))
  /-- An identity of the root is missed exactly if a reference needs it. -/
  missingRootId : (∃ error ∈ document.lint.errors, error.1.code = "MISSING_ROOT_ID") ↔
    document.RefersWithin ∧ document.get? "$id" = none
  /-- The path of a finding, after the number sign, leads to what the finding is about. -/
  located : ∀ finding ∈ document.lint.findings, ∃ (text : String) (v : Json),
    finding.pointer.fragment = "#" ++ text ∧ document.atText? text = some v ∧
      finding.About document v

/-- The finding that a warning comes from. -/
theorem LintReport.warning_mem_findings {report : LintReport} {warning : LintWarning × Pointer}
    (h : warning ∈ report.warnings) : .warning warning.1 warning.2 ∈ report.findings := by
  obtain ⟨finding, hfinding, hwarning⟩ := List.mem_filterMap.1 h
  cases finding with
  | error cause p => cases hwarning
  | warning cause p =>
    cases hwarning
    exact hfinding

/-! ### Pointers of findings -/

namespace Json

variable {document layout source url : Json} {p : Pointer}

theorem LayoutAt.leadsTo (h : document.LayoutAt p layout) : document.LeadsTo p layout := by
  obtain ⟨q, node, rfl, hnode, hlayout⟩ := h
  exact hnode.push (by decide) hlayout

theorem SourceAt.leadsTo (h : document.SourceAt p source) : document.LeadsTo p source := by
  obtain ⟨q, fields, rfl, hlayout, hsource⟩ := h
  exact hlayout.leadsTo.push (by decide) hsource

theorem UrlAt.leadsTo (h : document.UrlAt p url) : document.LeadsTo p url := by
  obtain ⟨q, fields, rfl, hsource, hurl⟩ := h
  exact hsource.leadsTo.push (by decide) hurl

end Json

/-- The pointer of a finding leads to what the finding is about. -/
theorem Finding.About.leadsTo {document v : Json} {finding : Finding}
    (h : finding.About document v) : document.LeadsTo finding.pointer v := by
  cases h with
  | layout hlayout => exact hlayout.leadsTo
  | source hsource => exact hsource.leadsTo
  | url hurl => exact hurl.leadsTo
  | placeholder hurl => exact hurl.leadsTo
  | @item p fields field name hholder hfield hname =>
    have hplain : Pointer.IsPlain field := by
      rcases hfield with rfl | rfl <;> decide
    have hfields : document.LeadsTo p (.obj fields) :=
      hholder.elim Json.LayoutAt.leadsTo Json.SourceAt.leadsTo
    exact hfields.push hplain hname
  | extension hnode hvalue => exact hnode.member hvalue
  | rootId => exact .root document

namespace Contract

variable {document : Json} {node fields : Members} {p : Pointer}

theorem about_checkItemFields (hholder : document.LayoutAt p (.obj fields) ∨
    document.SourceAt p (.obj fields)) :
    ∀ finding ∈ checkItemFields node fields p, ∃ v, finding.About document v := by
  have hfield {field : String} (hfield : field = "itemKey" ∨ field = "itemTitle") :
      ∀ finding ∈ checkItemField node fields p field, ∃ v, finding.About document v := by
    intro finding hfinding
    unfold checkItemField at hfinding
    split at hfinding
    · rename_i name properties hname hproperties
      split at hfinding
      · cases hfinding
      · rw [List.mem_singleton.1 hfinding]
        exact ⟨_, .item hholder hfield hname⟩
    · cases hfinding
  exact List.forall_mem_append.2 ⟨hfield (.inl rfl), hfield (.inr rfl)⟩

theorem about_checkUrl {url : Json} (hurl : document.UrlAt p url) :
    ∀ finding ∈ checkUrl p url, ∃ v, finding.About document v := by
  intro finding hfinding
  unfold checkUrl at hfinding
  split at hfinding
  · rw [List.mem_singleton.1 hfinding]
    exact ⟨url, .url hurl⟩
  · rename_i expr hexpr
    split at hfinding
    · rw [List.mem_singleton.1 hfinding]
      obtain ⟨text, htext, hstr⟩ := Option.bind_eq_some_iff.1 hexpr
      cases text <;> cases hstr
      exact ⟨url, .placeholder hurl htext⟩
    · cases hfinding

theorem about_checkSource {source : Json} (hsource : document.SourceAt p source) :
    ∀ finding ∈ checkSource node p source, ∃ v, finding.About document v := by
  have herror {cause : LintError} (hcode : cause.code = "GET_ITEMS_SOURCE") :
      ∀ finding ∈ [Finding.error cause p], ∃ v, finding.About document v := by
    intro finding hfinding
    rw [List.mem_singleton.1 hfinding]
    exact ⟨source, .source hsource hcode⟩
  cases source with
  | obj fields =>
    rw [checkSource]
    refine List.forall_mem_append.2 ⟨?_, about_checkItemFields (.inr hsource)⟩
    split
    · exact herror rfl
    · exact herror rfl
    · rename_i url hexpr hurl
      exact about_checkUrl ⟨p, fields, rfl, hsource, hurl⟩
    · exact List.forall_mem_nil _
  | null | bool | num | str | arr => exact herror rfl

theorem about_checkLayout {layout : Json} (hlayout : document.LayoutAt p layout) :
    ∀ finding ∈ checkLayout node p layout, ∃ v, finding.About document v := by
  have herror {cause : LintError} (hcode : cause.code = "INVALID_LAYOUT") :
      ∀ finding ∈ [Finding.error cause p], ∃ v, finding.About document v := by
    intro finding hfinding
    rw [List.mem_singleton.1 hfinding]
    exact ⟨layout, .layout hlayout hcode⟩
  cases layout with
  | str => exact List.forall_mem_nil _
  | obj fields =>
    rw [checkLayout]
    refine List.forall_mem_append.2 ⟨List.forall_mem_append.2 ⟨?_, ?_⟩,
      about_checkItemFields (.inl hlayout)⟩
    · split
      · exact List.forall_mem_nil _
      · exact herror rfl
    · split
      · rename_i source hsource
        exact about_checkSource ⟨p, fields, rfl, hlayout, hsource⟩
      · exact List.forall_mem_nil _
  | null | bool | num | arr => exact herror rfl

theorem about_checkNode (hnode : document.LeadsTo p (.obj node)) :
    ∀ finding ∈ checkNode node p, ∃ v, finding.About document v := by
  unfold checkNode
  split
  · rename_i layout hlayout
    exact about_checkLayout ⟨p, node, rfl, hnode, hlayout⟩
  · exact List.forall_mem_nil _

theorem about_checkKey (hnode : document.LeadsTo p (.obj node)) {key : String} {value : Json}
    (hvalue : node.get? key = some value) :
    ∀ finding ∈ checkKey key (p.member key), ∃ v, finding.About document v := by
  unfold checkKey
  split
  · rename_i hclaimed
    intro finding hfinding
    rw [List.mem_singleton.1 hfinding]
    exact ⟨value, .extension hnode hvalue hclaimed⟩
  · exact List.forall_mem_nil _

/-! ### Findings of members and elements -/

theorem checkMembers_eq (p : Pointer) (ms : Members) : checkMembers p ms
    = ms.flatMap (fun m => checkKey m.1 (p.member m.1) ++ check (p.member m.1) m.2) := by
  induction ms with
  | nil => rfl
  | cons m ms ih => rw [checkMembers, ih, List.flatMap_cons]

theorem checkElements_eq (p : Pointer) (i : Nat) (xs : List Json) : checkElements p i xs
    = (xs.zipIdx i).flatMap (fun x => check (p.element x.2) x.1) := by
  induction xs generalizing i with
  | nil => rfl
  | cons x xs ih => rw [checkElements, ih, List.zipIdx_cons, List.flatMap_cons]

/-- Every finding in a part of the document is about a value of the document. -/
theorem about_check {v : Json} (hv : v.WellFormed) (hat : document.LeadsTo p v) :
    ∀ finding ∈ check p v, ∃ w, finding.About document w := by
  -- The pointer goes down with the check, so what has to be carried is that it leads to the part.
  induction v using Json.induction_on generalizing p with
  | null | bool | num | str => exact List.forall_mem_nil _
  | arr xs ih =>
    intro finding hfinding
    rw [check, checkElements_eq] at hfinding
    obtain ⟨⟨x, i⟩, hx, hmem⟩ := List.mem_flatMap.1 hfinding
    have hget : xs[i]? = some x := List.mem_zipIdx_iff_getElem?.1 hx
    have helement : x ∈ xs := List.mem_of_getElem? hget
    exact ih x helement (Json.wellFormed_arr_iff.1 hv x helement) (hat.element hget) finding hmem
  | obj ms ih =>
    rw [check, checkMembers_eq]
    refine List.forall_mem_append.2 ⟨about_checkNode hat, ?_⟩
    intro finding hfinding
    obtain ⟨m, hm, hmem⟩ := List.mem_flatMap.1 hfinding
    have hget : Members.get? ms m.1 = some m.2 := (Members.get?_eq_some_iff hv.1).2 hm
    rcases List.mem_append.1 hmem with hkey | hvalue
    · exact about_checkKey hat hget finding hkey
    · exact ih m hm ((Json.wellFormed_obj_iff.1 hv).2 m hm) (hat.member hget) finding hvalue

/-! ### Legacy extensions in order -/

/-- The warning of a finding about a legacy extension. -/
def legacy? (finding : Finding) : Option (LintWarning × Pointer) :=
  finding.warning?.filter (fun warning => warning.1.code = "LEGACY_EXTENSION")

/-- A warning with the place that it is about. -/
def placed (warning : LintWarning × Pointer) : LintWarning × Place := (warning.1, warning.2.place)

theorem legacy?_eq_none_of_leftover? {finding : Finding} (h : finding.leftover? = none) :
    legacy? finding = none := by
  cases finding with
  | error cause p => rfl
  | warning cause p =>
    cases cause with
    | legacyExtension key => cases h
    | unpromotedPlaceholder expr => rfl

theorem filterMap_legacy?_eq_nil {findings : List Finding}
    (h : findings.filterMap Finding.leftover? = []) : findings.filterMap legacy? = [] := by
  rw [List.filterMap_eq_nil_iff] at h ⊢
  exact fun finding hmem => legacy?_eq_none_of_leftover? (h finding hmem)

/-- The claimed ones among members, as warnings with the places of their values. -/
def claimed (above : Place) (members : List (Place × String)) : List (LintWarning × Place) :=
  (members.filter (fun m => Table.builtin.recognizes m.2)).map
    (fun m => (.legacyExtension m.2, above ++ Json.memberPlace m))

theorem claimed_under (above : Place) (name : String) (members : List (Place × String)) :
    claimed above (Json.under name members) = claimed (above ++ [name]) members := by
  simp only [claimed, Json.under, List.filter_map, List.map_map]
  apply List.map_congr_left
  intro m _
  simp [Json.memberPlace]

theorem claimed_flatMap {α : Type} (above : Place) (xs : List α)
    (members : α → List (Place × String)) :
    claimed above (xs.flatMap members) = xs.flatMap (fun x => claimed above (members x)) := by
  rw [claimed, List.filter_flatMap, List.map_flatMap]
  rfl

theorem claimed_append (above : Place) (members others : List (Place × String)) :
    claimed above (members ++ others) = claimed above members ++ claimed above others := by
  rw [claimed, List.filter_append, List.map_append]
  rfl

theorem legacy_checkKey (key : String) (p : Pointer) :
    ((checkKey key (p.member key)).filterMap legacy?).map placed = claimed p.place [([], key)] := by
  have hfound : [Finding.warning (.legacyExtension key) (p.member key)].filterMap legacy?
      = [(.legacyExtension key, p.member key)] := rfl
  unfold checkKey claimed
  cases hclaimed : Table.builtin.recognizes key with
  | true => simp [hclaimed, hfound, placed, Json.memberPlace]
  | false => simp [hclaimed]

/-- The legacy extensions that a check finds are the claimed ones among all members, in order. -/
theorem legacy_check (v : Json) (p : Pointer) :
    ((check p v).filterMap legacy?).map placed = claimed p.place v.occurrences := by
  induction v using Json.induction_on generalizing p with
  | null | bool | num | str => rfl
  | arr xs ih =>
    rw [check, checkElements_eq, Json.occurrences, Json.elementOccurrences_eq, claimed_flatMap,
      List.filterMap_flatMap, List.map_flatMap]
    apply List.flatMap_congr
    rintro ⟨x, i⟩ hx
    have helement : x ∈ xs := List.mem_of_getElem? (List.mem_zipIdx_iff_getElem?.1 hx)
    rw [ih x helement, Pointer.place_element, claimed_under]
  | obj ms ih =>
    rw [check, List.filterMap_append, filterMap_legacy?_eq_nil leftover?_checkNode, List.nil_append,
      checkMembers_eq, Json.occurrences, Json.memberOccurrences_eq, claimed_flatMap,
      List.filterMap_flatMap, List.map_flatMap]
    apply List.flatMap_congr
    intro m hm
    rw [List.filterMap_append, List.map_append, legacy_checkKey, ih m hm, Pointer.place_member,
      ← claimed_under, ← claimed_append, List.singleton_append]

/-! ### The identity of the root -/

/-- The check of the root finds nothing but that it lacks an identity. -/
theorem mem_checkRoot_iff {finding : Finding} :
    finding ∈ checkRoot document ↔ finding = .error .missingRootId .root ∧
      (∃ ref ∈ document.refTexts, (internalFragment? ref).isSome = true) ∧
      document.get? "$id" = none := by
  simp [checkRoot, and_comm]

end Contract

/-! ### What a lint reports -/

namespace Json

variable {document : Json}

/-- The warnings about legacy extensions are the claimed members, in order. -/
theorem map_placed_legacy (document : Json) :
    (document.lint.warnings.filter (fun w => w.1.code = "LEGACY_EXTENSION")).map Contract.placed
      = Contract.claimed [] document.occurrences := by
  have hwarnings :
      document.lint.warnings.filter (fun w => w.1.code = "LEGACY_EXTENSION")
        = (Contract.check .root document ++ Contract.checkRoot document).filterMap
          Contract.legacy? := List.filter_filterMap ..
  have hroot : (Contract.checkRoot document).filterMap Contract.legacy? = [] :=
    Contract.filterMap_legacy?_eq_nil (Contract.leftover?_checkRoot document)
  rw [hwarnings, List.filterMap_append, hroot, List.append_nil]
  exact Contract.legacy_check document .root

variable (hdocument : document.WellFormed)

include hdocument

/-- Each finding is about a value of the document. -/
theorem about_lint : ∀ finding ∈ document.lint.findings, ∃ v, finding.About document v := by
  refine List.forall_mem_append.2 ⟨Contract.about_check hdocument (.root document), ?_⟩
  intro finding hfinding
  obtain ⟨rfl, hrefers, hid⟩ := Contract.mem_checkRoot_iff.1 hfinding
  exact ⟨document, .rootId ((refersWithin_iff hdocument).2 hrefers) hid⟩

theorem missingRootId_iff : (∃ error ∈ document.lint.errors, error.1.code = "MISSING_ROOT_ID") ↔
    document.RefersWithin ∧ document.get? "$id" = none := by
  constructor
  · rintro ⟨⟨cause, p⟩, herror, hcode⟩
    obtain ⟨finding, hfinding, hcause⟩ := List.mem_filterMap.1 herror
    obtain ⟨v, habout⟩ := about_lint hdocument finding hfinding
    cases habout with
    | rootId hrefers hid => exact ⟨hrefers, hid⟩
    -- The other findings have other codes, or are no errors.
    | layout _ hlayout =>
      cases hcause
      exact absurd (hlayout.symm.trans hcode) (by decide)
    | source _ hsource =>
      cases hcause
      exact absurd (hsource.symm.trans hcode) (by decide)
    | url | item =>
      cases hcause
      simp [LintError.code] at hcode
    | placeholder | extension => cases hcause
  · rintro ⟨hrefers, hid⟩
    have hfinding : .error .missingRootId .root ∈ document.lint.findings :=
      List.mem_append_right _
        (Contract.mem_checkRoot_iff.2 ⟨rfl, (refersWithin_iff hdocument).1 hrefers, hid⟩)
    exact ⟨(.missingRootId, .root), List.mem_filterMap.2 ⟨_, hfinding, rfl⟩, rfl⟩

theorem tellsLegacy_lint : document.TellsLegacy
    (document.lint.warnings.filter (fun warning => warning.1.code = "LEGACY_EXTENSION")) := by
  -- The order is that of all members; what is sound about a warning is sound about any finding.
  have hplaced := map_placed_legacy document
  have hordered : (Contract.claimed [] document.occurrences).Pairwise
      (fun a b => document.Precedes a.2 b.2) :=
    List.pairwise_map.2 ((pairwise_occurrences hdocument).filter _)
  rw [← hplaced, List.pairwise_map] at hordered
  constructor
  case ordered => exact hordered
  case nodup =>
    rw [List.nodup_iff_pairwise_ne, List.pairwise_map]
    exact hordered.imp (fun h => h.ne hdocument)
  case sound =>
    rintro ⟨cause, p⟩ hwarning
    obtain ⟨hmem, hcode⟩ := List.mem_filter.1 hwarning
    obtain ⟨v, habout⟩ := about_lint hdocument _ (LintReport.warning_mem_findings hmem)
    have hfound : document.atText? p.text = some v := habout.leadsTo.atText?
    cases habout with
    | placeholder => cases hcode
    | @extension q node key value hnode hvalue hclaimed =>
      exact ⟨q.place, node, key, v, rfl, Pointer.place_member q key, hnode.found, hvalue, hclaimed,
        hfound⟩
  case complete =>
    intro place node key hat hkey hclaimed
    have hmem : (LintWarning.legacyExtension key, place ++ [key])
        ∈ Contract.claimed [] document.occurrences :=
      List.mem_map.2 ⟨(place, key), List.mem_filter.2
        ⟨(mem_occurrences_iff hdocument).2 ⟨node, hat, hkey⟩, hclaimed⟩, rfl⟩
    rw [← hplaced] at hmem
    obtain ⟨⟨cause, p⟩, hwarning, heq⟩ := List.mem_map.1 hmem
    obtain ⟨hcause, hplace⟩ := Prod.mk.inj heq
    exact ⟨_, hwarning, hcause, hplace⟩

/-- **A lint is accurate**: it warns of the legacy extensions that there are, in the order of the
    document and once, misses an identity of the root exactly if a reference needs it, and each of
    its paths leads to what the finding is about. -/
theorem lint_accurate : document.LintAccurate where
  legacy := tellsLegacy_lint hdocument
  missingRootId := missingRootId_iff hdocument
  located := by
    intro finding hfinding
    obtain ⟨v, habout⟩ := about_lint hdocument finding hfinding
    exact ⟨finding.pointer.text, v, rfl, habout.leadsTo.atText?, habout⟩

end Json

/-- A document with a layout that cannot be read, two extensions left over and a reference. -/
def lintedDocument : Json :=
  .obj [("a/b", .obj [("x-if", .str "c"), ("layout", .arr [])]),
    ("items", .arr [.obj [("$ref", .str "#/a~1b"), ("x-display", .str "d")]])]

theorem Json.lint_accurate_lintedDocument : lintedDocument.WellFormed ∧
    lintedDocument.lint.findings.map (fun finding => finding.pointer.fragment)
      = ["#/a~1b/layout", "#/a~1b/x-if", "#/items/0/x-display", "#"] ∧
    lintedDocument.LintAccurate := by
  have hdocument : lintedDocument.WellFormed := by
    simp [lintedDocument, Json.WellFormed, Json.MembersWellFormed, Json.ElementsWellFormed,
      Members.keys]
  exact ⟨hdocument, by decide, Json.lint_accurate hdocument⟩

end Relayout
