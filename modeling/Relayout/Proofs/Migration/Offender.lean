/-
  Relayout/Proofs/Migration/Offender.lean
  =======================================
  **An error points at the object that is to blame.**

  The place of an error is a number sign and a written pointer.  Read as one, the pointer leads to
  an object of the input, and this object has the defect that the error reports
  (`MigrationError.DefectOf`): whether it stands in the root or in a definition that was entered
  through any number of references, and whatever characters the names on the way have
  (`Transformer.error_points_at_defect`).
-/
import Relayout.Proofs.Extension.Fault
import Relayout.Proofs.Migration.Origin

namespace Relayout

/-- An object of a document has the defect that an error reports. -/
inductive MigrationError.DefectOf (detector : Template.Detector) (document : Json)
    (node : Members) : MigrationError → Prop where
  | conflictingSource {expr url : String} (place : String) :
    node.get? "x-fromData" = some (.str expr) → node.get? "x-fromUrl" = some (.str url) →
      DefectOf detector document node (.conflictingSource place)
  /-- The reference is reported as it stands, and leads nowhere. -/
  | dangling {ref : String} (place : String) :
    node.get? "$ref" = some (.str ref) → ¬ document.Resolves ref →
      DefectOf detector document node (.unresolvedRef ref place)
  /-- What is no text is reported as it is serialized. -/
  | notText {v : Json} (place : String) : node.get? "$ref" = some v → v.asString? = none →
    DefectOf detector document node (.unresolvedRef v.compact place)
  | unsupportedCombination {keys : List String} (place : String) (reason : Incompatibility) :
    keys ≠ [] → (∀ key ∈ keys, node.has key = true) →
      DefectOf detector document node (.unsupportedCombination keys place reason)
  | invalidValue {key : String} {expected : ExpectedValue} {v : Json} (place : String) :
    node.get? key = some v → ¬ expected.Fits detector v →
      DefectOf detector document node (.invalidValue key place expected)

variable {document : Json} {e : MigrationError}

theorem Site.Faulty.defect {s : Site} (h : s.Faulty e) (document : Json) :
    e.place? = some s.place ∧ e.DefectOf s.detector document s.node := by
  cases e with
  | conflictingSource place =>
    obtain ⟨rfl, ⟨expr, hdata⟩, url, hurl⟩ := h
    exact ⟨rfl, .conflictingSource _ hdata hurl⟩
  | unsupportedCombination keys place reason =>
    obtain ⟨rfl, hne, hkeys⟩ := h
    exact ⟨rfl, .unsupportedCombination _ reason hne hkeys⟩
  | invalidValue key place expected =>
    obtain ⟨rfl, v, hv, hnot⟩ := h
    exact ⟨rfl, .invalidValue _ hv hnot⟩
  | unresolvedRef pointer place => exact h.elim
  | invalidInput errors => exact h.elim

namespace Dialect

variable {d : Dialect} {p : Pointer} {node : Members}

theorem defect_of_ruleSteps {step : Step} (hstep : step ∈ d.ruleSteps p node)
    (hfails : step.FailsWith document e) :
    e.place? = some p.fragment ∧ e.DefectOf d.detector document node := by
  unfold ruleSteps at hstep
  rcases List.mem_append.1 hstep with hnote | herror
  · obtain ⟨rule, -, rfl⟩ := List.mem_map.1 hnote
    cases hfails
  · cases hresult : (d.mapping p.text node).result with
    | ok mapped =>
      rw [hresult] at herror
      cases herror
    | error cause =>
      rw [hresult] at herror
      obtain rfl := List.mem_singleton.1 herror
      cases hfails
      exact (Table.faulty_of_map hresult).defect document

theorem defect_of_refSteps {step : Step} (hstep : step ∈ refSteps p node)
    (hfails : step.FailsWith document e) :
    e.place? = some p.fragment ∧ e.DefectOf d.detector document node := by
  unfold refSteps at hstep
  split at hstep
  · cases hstep
  · rename_i ref hget
    obtain rfl := List.mem_singleton.1 hstep
    cases hfails with
    | unresolved source hfragment hlocate =>
      exact ⟨rfl, .dangling _ hget (fun hresolves => hresolves _ hfragment hlocate)⟩
  · rename_i v hnot hget
    obtain rfl := List.mem_singleton.1 hstep
    cases hfails
    have htext : v.asString? = none := by
      cases v with
      | str text => exact absurd rfl (hnot text)
      | null | bool | num | arr | obj => rfl
    exact ⟨rfl, .notText _ hget htext⟩

/-- A step that fails points at the object that brings it, and reports a defect of it. -/
theorem defect_of_broughtBy {step : Step} (hstep : step.BroughtBy d p node)
    (hfails : step.FailsWith document e) :
    e.place? = some p.fragment ∧ e.DefectOf d.detector document node := by
  cases hstep with
  | own hown =>
    rcases List.mem_append.1 hown with hrule | href
    · exact defect_of_ruleSteps hrule hfails
    · exact defect_of_refSteps href hfails
  | label _ hlabel =>
    obtain ⟨event, rfl, -⟩ := exists_note_of_mem_allLabelSteps hlabel
    cases hfails

/-- A walk fails where following references does. -/
theorem follow_result_of_walk (h : (d.walk document).result = .error e) :
    (d.follow document).result = .error e := by
  rw [walk_eq] at h
  rcases Trace.bind_result_eq_error h with hfollow | ⟨s, -, hfinish⟩
  · exact hfollow
  · cases hfinish

theorem error_of_walk_points_at_defect (hdocument : document.WellFormed)
    (h : (d.walk document).result = .error e) :
    ∃ p node, e.place? = some p.fragment ∧ document.LeadsTo p (.obj node) ∧
      d.ComesTo document ⟨p.place, node⟩ ∧ e.DefectOf d.detector document node := by
  obtain ⟨p, node, step, ⟨hcomes, hobject, hstep⟩, hfails⟩ :=
    (d.accounts_follow hdocument).error e (follow_result_of_walk h)
  obtain ⟨hplace, hdefect⟩ := defect_of_broughtBy hstep hfails
  exact ⟨p, node, hplace, hobject, hcomes, hdefect⟩

end Dialect

namespace Transformer

/-- **The error of a run whose input is not rejected points at the offending object**: after the
    number sign stands a pointer that leads, in the input, to an object that the run comes to and
    that has the defect. -/
theorem error_points_at_defect {t : Transformer} (hdocument : document.WellFormed)
    (hcheck : t.precheck document = .ok ()) (h : (t.run document).result = .error e) :
    ∃ text p node, e.place? = some ("#" ++ text) ∧ Pointer.ofText? text = some p ∧
      document.find? p = some (.obj node) ∧ t.dialect.ComesTo document ⟨p.place, node⟩ ∧
      e.DefectOf t.dialect.detector document node := by
  have hwalk : (t.dialect.walk document).result = .error e := by
    rcases rejected_or_walk_of_run h with ⟨validate, errors, hvalidator, hrejects, -⟩ | hwalk
    · rw [precheck, hvalidator] at hcheck
      simp only [hrejects] at hcheck
      cases hcheck
    · exact hwalk
  obtain ⟨p, node, hplace, hobject, hcomes, hdefect⟩ :=
    Dialect.error_of_walk_points_at_defect hdocument hwalk
  refine ⟨p.text, p, node, hplace, Pointer.ofText?_text hobject.slashFree, ?_, hcomes, hdefect⟩
  rw [Json.find?_eq_at?, hobject.found]

/-- A document in which a reference leads to a definition, and a reference in there to another,
    one of whose properties claims two sources; the names on the way have to be escaped. -/
def twoSourcesDocument : Json :=
  .obj [("properties", .obj [("x", .obj [("$ref", .str "#/definitions/a~1b")])]),
    ("definitions", .obj [
      ("a/b", .obj [("items", .obj [("$ref", .str "#/definitions/c%20d")])]),
      ("c d", .obj [("properties", .obj [("p~q", .obj [("x-fromData", .str "data"),
        ("x-fromUrl", .str "/url")])])])])]

theorem error_points_at_twoSources :
    twoSourcesDocument.WellFormed ∧
      precheck ⟨⟨Table.builtin, {}⟩, defaultRootId, none⟩ twoSourcesDocument = .ok () ∧
      (run ⟨⟨Table.builtin, {}⟩, defaultRootId, none⟩ twoSourcesDocument).result
        = .error (.conflictingSource "#/definitions/c d/properties/p~0q") ∧
      ∃ text p node,
        (MigrationError.conflictingSource "#/definitions/c d/properties/p~0q").place?
          = some ("#" ++ text) ∧
        Pointer.ofText? text = some p ∧ twoSourcesDocument.find? p = some (.obj node) ∧
        Dialect.ComesTo ⟨Table.builtin, {}⟩ twoSourcesDocument ⟨p.place, node⟩ ∧
        (MigrationError.conflictingSource "#/definitions/c d/properties/p~0q").DefectOf {}
          twoSourcesDocument node :=
  have hdocument : twoSourcesDocument.WellFormed := by
    simp [twoSourcesDocument, Json.WellFormed, Json.MembersWellFormed, Members.keys]
  have hrun : (run ⟨⟨Table.builtin, {}⟩, defaultRootId, none⟩ twoSourcesDocument).result
      = .error (.conflictingSource "#/definitions/c d/properties/p~0q") :=
    Trace.result_eq_error_iff.2 (by decide +kernel)
  ⟨hdocument, rfl, hrun, error_points_at_defect hdocument rfl hrun⟩

end Transformer

end Relayout
