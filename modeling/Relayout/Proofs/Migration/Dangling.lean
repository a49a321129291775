/-
  Relayout/Proofs/Migration/Dangling.lean
  =======================================
  **Which references a run leaves without a target.**

  In the input of a run that succeeds every reference of a visited object resolves.  In the
  output it resolves as well, except if what it leads to was consumed, that is, if it is or
  lies in a member that the table claims and that went with the extensions of a visited
  object.  Nothing else can make a second run fail once its input has been checked
  (`Transformer.resolves_run`).
-/
import Relayout.Proofs.Migration.Failure
import Relayout.Proofs.Migration.Revisit

namespace Relayout

theorem Migration.Consumed.congr {m m' : Migration} {table : Table} {document : Json}
    {place : Place} (h : m.Consumed table document place) (hresolved : m'.resolved = m.resolved) :
    m'.Consumed table document place := by
  obtain ⟨hdeepest, htarget, hnode, hvisits, hclaimed⟩ := h
  refine .member ?_ htarget hnode hvisits hclaimed
  unfold Migration.Deepest Migration.starts at hdeepest ⊢
  rwa [hresolved]

/-- What was made of an acceptable object is rejected only because its reference, which is the same,
    leads nowhere any more. -/
theorem Dialect.Acceptable.eq_unresolvedRef {d : Dialect} {document schema : Json}
    {node ns : Members} {e : MigrationError} (hnode : d.Acceptable document node)
    (hreworks : d.table.Reworks (.obj node) (.obj ns)) (hrejects : d.Rejects schema ns e) :
    ∃ ref source, node.get? "$ref" = some (.str ref) ∧ ¬ schema.Resolves ref ∧
      e = .unresolvedRef ref source := by
  cases hrejects with
  | mapping hresult =>
    obtain ⟨mapped, hmapped⟩ := exists_mapped_of_reworks hreworks (hnode.mapped _)
    rw [hmapped] at hresult
    cases hresult
  | notText place hv htext =>
    obtain ⟨ref, rfl, -⟩ := hnode.exists_ref_of_reworks hreworks hv
    cases htext
  | dangling place hv hnot =>
    obtain ⟨_, hsame, href⟩ := hnode.exists_ref_of_reworks hreworks hv
    cases hsame
    exact ⟨_, place, href, hnot, rfl⟩

namespace Dialect

variable {d : Dialect} {document : Json} {m : Migration} (h : (d.walk document).result = .ok m)
  (id : String)

include h

/-- An identity for the root brings back nothing that was consumed. -/
theorem lost_stamped_iff_consumed {place : Place} (hplace : document.at? place ≠ none) :
    (m.schema.stamped id).at? place = none ↔ m.Consumed d.table document place := by
  rw [← lost_iff_consumed h hplace]
  cases place with
  | nil => simp
  | cons name rest => rw [at?_stamped_walk h id (child?_ne_none_of_at?_cons hplace)]

variable (hdocument : document.WellFormed)

include hdocument

/-- What a visited object refers to is in the document, and it is in the result unless it was
    consumed. -/
theorem resolves_walk_iff {place : Place} {node : Members} {ref : String}
    (hvisited : m.Visited document place node) (href : node.get? "$ref" = some (.str ref)) :
    document.Resolves ref ∧ ((m.schema.stamped id).Resolves ref ↔
      ∀ p, Pointer.ofRef? ref = some p → ¬ m.Consumed d.table document p.place) := by
  have hacceptable : d.Acceptable document node :=
    acceptable_of_walk h ((Migration.visited_iff (search_of_walk h) hdocument).1 hvisited)
  have hresolves : document.Resolves ref := by
    obtain ⟨text, htext, hresolves⟩ := hacceptable.ref _ href
    cases htext
    exact hresolves
  refine ⟨hresolves, ?_⟩
  cases hp : Pointer.ofRef? ref with
  | some p =>
    have hplace := (Json.resolves_iff hp).1 hresolves
    rw [Json.resolves_iff hp, Ne, lost_stamped_iff_consumed h id hplace]
    simp
  | none =>
    -- a reference that resolves and has no pointer leaves the document
    have hexternal : internalFragment? ref = none := by
      cases hfragment : internalFragment? ref with
      | none => rfl
      | some fragment =>
        have hnone : fragmentPointer? fragment = none := by
          simpa [Pointer.ofRef?, hfragment] using hp
        exact absurd (by simp [locate?, hnone]) (hresolves fragment hfragment)
    simp [resolves_of_external hexternal]

/-- A walk of the result fails for a reference that leads to what was consumed, and for nothing
    else. -/
theorem exists_consumed_of_walk_fails {e : MigrationError}
    (he : (d.walk (m.schema.stamped id)).result = .error e) :
    ∃ place node ref source p, m.Visited document place node ∧
      node.get? "$ref" = some (.str ref) ∧ Pointer.ofRef? ref = some p ∧
      m.Consumed d.table document p.place ∧ e = .unresolvedRef ref source := by
  obtain ⟨visit, hvisit, hrejects⟩ := exists_rejected_of_walk he
  rcases exists_origin_of_visited h hdocument hvisit with hinert | ⟨node, hnode, hreworks⟩
  · exact absurd hrejects (acceptable_of_inert hinert).not_rejects
  · have hacceptable : d.Acceptable document node :=
      acceptable_of_walk h ((Migration.visited_iff (search_of_walk h) hdocument).1 hnode)
    obtain ⟨ref, source, href, hnot, rfl⟩ := hacceptable.eq_unresolvedRef hreworks hrejects
    rw [(resolves_walk_iff h id hdocument hnode href).2] at hnot
    push Not at hnot
    obtain ⟨p, hp, hconsumed⟩ := hnot
    exact ⟨_, node, ref, source, p, hnode, href, hp, hconsumed, rfl⟩

end Dialect

namespace Transformer

/-- **In the output of a run a reference of a visited object resolves exactly if what it leads to
    was not consumed**; in the input all of them resolve.  Once the input has been checked, a second
    run fails at most for such a reference. -/
theorem resolves_run {t : Transformer} {document : Json} (hdocument : document.WellFormed)
    {m : Migration} (h : (t.run document).result = .ok m) :
    (∀ place node ref, m.Visited document place node → node.get? "$ref" = some (.str ref) →
      document.Resolves ref ∧ (m.schema.Resolves ref ↔ ∀ p, Pointer.ofRef? ref = some p →
        ¬ m.Consumed t.dialect.table document p.place)) ∧
    ∀ e, (t.run m.schema).result = .error e →
      (∃ validate errors, t.validator = some validate ∧ validate m.schema = .error errors ∧
        e = .invalidInput errors) ∨
      ∃ place node ref source p, m.Visited document place node ∧
        node.get? "$ref" = some (.str ref) ∧ Pointer.ofRef? ref = some p ∧
        m.Consumed t.dialect.table document p.place ∧ e = .unresolvedRef ref source := by
  obtain ⟨schema, hwalk, hstamped⟩ := exists_walk_of_run h
  obtain ⟨_, resolved⟩ := m
  obtain rfl : _ = schema.stamped t.rootId := hstamped
  have hconsumed (place : Place) :
      Migration.Consumed ⟨schema.stamped t.rootId, resolved⟩ t.dialect.table document place ↔
        Migration.Consumed ⟨schema, resolved⟩ t.dialect.table document place :=
    ⟨fun h => h.congr rfl, fun h => h.congr rfl⟩
  simp only [hconsumed]
  constructor
  · intro place node ref hvisited href
    exact Dialect.resolves_walk_iff hwalk t.rootId hdocument hvisited href
  · intro e he
    apply (rejected_or_walk_of_run he).imp_right
    exact Dialect.exists_consumed_of_walk_fails hwalk t.rootId hdocument

/-- A document with a reference into the value of an extension of its root. -/
def extensionRefDocument : Json :=
  .obj [("properties", .obj [("a", .obj [("$ref", .str "#/x-props/p")])]),
    ("x-props", .obj [("p", .obj [("type", .str "string")])])]

/-- What a run of it gives: the extension has gone into the layout. -/
def extensionRefMigration : Migration where
  schema := .obj [("properties", .obj [("a", .obj [("$ref", .str "#/x-props/p")])]),
    ("layout", .obj [("props", .obj [("p", .obj [("type", .str "string")])])]),
    ("$id", .str "_jl")]
  resolved := []

theorem wellFormed_extensionRefDocument : extensionRefDocument.WellFormed := by
  simp [extensionRefDocument, Json.WellFormed, Json.MembersWellFormed, Members.keys]

theorem result_run_extensionRefDocument :
    (run ⟨⟨Table.builtin, {}⟩, defaultRootId, none⟩ extensionRefDocument).result
      = .ok extensionRefMigration :=
  Trace.result_eq_ok_of_toOption (by decide +kernel)

theorem resolves_run_extensionRefDocument :
    extensionRefDocument.WellFormed ∧
      (run ⟨⟨Table.builtin, {}⟩, defaultRootId, none⟩ extensionRefDocument).result
        = .ok extensionRefMigration ∧
      (∀ place node ref, extensionRefMigration.Visited extensionRefDocument place node →
        node.get? "$ref" = some (.str ref) →
        extensionRefDocument.Resolves ref ∧ (extensionRefMigration.schema.Resolves ref ↔
          ∀ p, Pointer.ofRef? ref = some p →
            ¬ extensionRefMigration.Consumed Table.builtin extensionRefDocument p.place)) ∧
      ∀ e, (run ⟨⟨Table.builtin, {}⟩, defaultRootId, none⟩ extensionRefMigration.schema).result
          = .error e →
        (∃ (validate : Validator) (errors : List String), none = some validate ∧
          validate extensionRefMigration.schema = .error errors ∧ e = .invalidInput errors) ∨
        ∃ place node ref source p, extensionRefMigration.Visited extensionRefDocument place node ∧
          node.get? "$ref" = some (.str ref) ∧ Pointer.ofRef? ref = some p ∧
          extensionRefMigration.Consumed Table.builtin extensionRefDocument p.place ∧
          e = .unresolvedRef ref source :=
  ⟨wellFormed_extensionRefDocument, result_run_extensionRefDocument,
    resolves_run wellFormed_extensionRefDocument result_run_extensionRefDocument⟩

/-- A reference of a visited object need not resolve in the output, and a second run may fail for
    it. -/
theorem not_resolves_extensionRefDocument :
    (run ⟨⟨Table.builtin, {}⟩, defaultRootId, none⟩ extensionRefDocument).result
        = .ok extensionRefMigration ∧
      extensionRefMigration.Visited extensionRefDocument ["properties", "a"]
        [("$ref", .str "#/x-props/p")] ∧
      extensionRefDocument.Resolves "#/x-props/p" ∧
      ¬ extensionRefMigration.schema.Resolves "#/x-props/p" ∧
      (run ⟨⟨Table.builtin, {}⟩, defaultRootId, none⟩ extensionRefMigration.schema).result
        = .error (.unresolvedRef "#/x-props/p" "#/properties/a") := by
  have hp : Pointer.ofRef? "#/x-props/p" = some ⟨["x-props", "p"]⟩ := by decide +kernel
  have hvisited : extensionRefMigration.Visited extensionRefDocument ([] ++ ["properties", "a"])
      [("$ref", .str "#/x-props/p")] :=
    Dialect.visited_of_below List.mem_cons_self rfl rfl rfl
  refine ⟨result_run_extensionRefDocument, hvisited, ?_, ?_, rfl⟩
  · rw [Json.resolves_iff hp]
    decide +kernel
  · rw [Json.resolves_iff hp]
    decide +kernel

end Transformer

end Relayout
