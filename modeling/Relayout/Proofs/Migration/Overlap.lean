/-
  Relayout/Proofs/Migration/Overlap.lean
  ======================================
  **References into a definition that another reference reached.**

  A reached definition may lie inside another without a keyword for definitions between
  them.  Then the visit of the outer one has migrated it already, and what it is migrated to
  as a definition is put in its place.  The two are the same when the outer visit treats it
  as a schema (`Dialect.overlapsAgree_of_schema`).  They differ where it is an element of
  an `allOf`, which gets a label, or a container, whose members are schemas and not keywords;
  then the outer migration is undone (`Dialect.not_agreeOutside_overlapDocument`).

  So the outer definition shows its own migration exactly when every overlap agrees with it
  (`Dialect.agreeOutside_iff_overlapsAgree`).
-/
import Relayout.Proofs.Migration.Walk

namespace Relayout

/-- What is put in place of the overlaps of a reached definition shows what the migration of its
    target makes there, outside of definitions and down to the next overlap. -/
def Migration.OverlapsAgree (m : Migration) (d : Dialect) (document : Json) (place : Place)
    (target : Json) : Prop :=
  ∀ below inner migrated, below ≠ [] → throughDefinitions below = false →
    place ++ below ∈ placesOf m.resolved → document.at? (place ++ below) = some inner →
    (d.migrate .schema target).at? below = some migrated →
    (d.migrate .schema inner).AgreeOutside
      (fun deeper => throughDefinitions (below ++ deeper) = true ∨
        deeper ≠ [] ∧ place ++ below ++ deeper ∈ placesOf m.resolved)
      migrated

namespace Dialect

variable {d : Dialect} {document : Json} {m : Migration} {place : Place} {target out : Json}

/-- With overlaps that agree, what both the result and the migrated target have is the same. -/
theorem shapeAt_eq_of_overlapsAgree (h : (d.walk document).result = .ok m)
    (hplace : place ∈ placesOf m.resolved) (htarget : document.at? place = some target)
    (hout : m.schema.at? place = some out) (hagree : m.OverlapsAgree d document place target)
    {below : Place} (hbelow : throughDefinitions below = false) (hhere : out.at? below ≠ none)
    (hthere : (d.migrate .schema target).at? below ≠ none) :
    out.shapeAt below = (d.migrate .schema target).shapeAt below := by
  obtain ⟨down, rest, rfl, hdeepest⟩ :=
    Migration.exists_deepest_below (List.mem_cons_of_mem [] hplace) below
  obtain ⟨inner, hinner⟩ := exists_target_of_mem_starts h hdeepest.1
  have hslot : m.schema.at? (place ++ down) ≠ none := by
    rw [Json.at?_append_of_eq_some hout]
    exact Json.at?_ne_none_of_append hhere
  have hshown : out.shapeAt (down ++ rest) = (d.migrate .schema inner).shapeAt rest := by
    rw [← shapeAt_walk h hdeepest hinner hslot, List.append_assoc,
      Json.shapeAt_append_of_eq_some hout]
  by_cases hdown : down = []
  · subst hdown
    rw [List.append_nil, htarget] at hinner
    rw [hshown, ← Option.some.inj hinner, List.nil_append]
  · obtain ⟨migrated, hmigrated⟩ :=
      Option.ne_none_iff_exists'.1 (Json.at?_ne_none_of_append hthere)
    have hreached : place ++ down ∈ placesOf m.resolved :=
      (List.mem_cons.1 hdeepest.1).resolve_left (by simp [hdown])
    have hlazy : throughDefinitions down = false :=
      throughDefinitions_above (List.prefix_append down rest) hbelow
    rw [hshown, Json.shapeAt_append_of_eq_some hmigrated]
    refine hagree down inner migrated hdown hlazy hreached hinner hmigrated rest ?_
    rintro above habove (hdefinitions | ⟨hne, hdeeper⟩)
    · have hupto : down ++ above <+: down ++ rest :=
        (List.prefix_append_right_inj down).2 habove
      rw [throughDefinitions_above hupto hbelow] at hdefinitions
      cases hdefinitions
    · have heq := hdeepest.2 _ (List.mem_cons_of_mem [] hdeeper) (List.prefix_append _ above)
        ((List.prefix_append_right_inj (place ++ down)).2 habove)
      exact hne (by simpa using heq)

/-- **When overlaps leave a migration as it is**: a reached definition shows the migration of its
    target, outside of definitions, exactly if all its overlaps agree with it. -/
theorem agreeOutside_iff_overlapsAgree (h : (d.walk document).result = .ok m)
    (hplace : place ∈ placesOf m.resolved) (htarget : document.at? place = some target)
    (hout : m.schema.at? place = some out) :
    out.AgreeOutside (fun below => throughDefinitions below = true) (d.migrate .schema target) ↔
      m.OverlapsAgree d document place target := by
  rw [Json.agreeOutside_definitions_iff]
  constructor
  · intro hagree below inner migrated hne hlazy hreached hinner hmigrated deeper hdeeper
    have hshape := hagree below hlazy
    have hslot : m.schema.at? (place ++ below) ≠ none := by
      rw [Json.at?_append_of_eq_some hout]
      intro hnone
      rw [Json.shapeAt_eq_none_iff.2 hnone, Json.shapeAt, hmigrated] at hshape
      cases hshape
    have hdeepest : m.Deepest (place ++ below) ([] ++ deeper) := by
      refine (Migration.deepest_nil (List.mem_cons_of_mem [] hreached)).append ?_
      intro above hupto hnil hmem
      rw [List.append_nil] at hmem
      exact hdeeper above hupto (Or.inr ⟨hnil, hmem⟩)
    have hdefinitions : throughDefinitions (below ++ deeper) = false :=
      Bool.eq_false_iff.2 (fun hlazy' => hdeeper deeper List.prefix_rfl (Or.inl hlazy'))
    calc
      (d.migrate .schema inner).shapeAt deeper
          = m.schema.shapeAt (place ++ below ++ deeper) :=
        (shapeAt_walk h hdeepest hinner hslot).symm
      _ = out.shapeAt (below ++ deeper) := by
        rw [List.append_assoc, Json.shapeAt_append_of_eq_some hout]
      _ = (d.migrate .schema target).shapeAt (below ++ deeper) := hagree _ hdefinitions
      _ = migrated.shapeAt deeper := Json.shapeAt_append_of_eq_some hmigrated deeper
  · intro hagree below hbelow
    induction below using List.reverseRecOn with
    | nil =>
      exact shapeAt_eq_of_overlapsAgree h hplace htarget hout hagree hbelow
        (Option.some_ne_none _) (Option.some_ne_none _)
    | append_singleton above name ih =>
      have hshape := ih (throughDefinitions_above (List.prefix_append above [name]) hbelow)
      -- the place is there in both or in neither, as its parent is the same in both
      by_cases hhere : out.at? (above ++ [name]) = none
      · rw [Json.shapeAt_eq_none_iff.2 hhere,
          Json.shapeAt_eq_none_iff.2 (Json.at?_append_singleton_eq_none hshape hhere)]
      · refine shapeAt_eq_of_overlapsAgree h hplace htarget hout hagree hbelow hhere ?_
        exact fun hthere => hhere (Json.at?_append_singleton_eq_none hshape.symm hthere)

/-- An overlap agrees where the outer visit treats it as a schema. -/
theorem overlapsAgree_of_schema (htarget : document.at? place = some target)
    (hschema : ∀ below, below ≠ [] → throughDefinitions below = false →
      place ++ below ∈ placesOf m.resolved →
      (Treatment.inRole .schema).below target below = .inRole .schema) :
    m.OverlapsAgree d document place target := by
  intro below inner migrated hne hlazy hreached hinner hmigrated deeper _
  rw [Json.at?_append_of_eq_some htarget] at hinner
  rcases d.at?_treat (t := .inRole .schema) hinner with hkept | ⟨hlost, -⟩
  · rw [hschema below hne hlazy hreached, treat, treat, hmigrated] at hkept
    rw [Option.some.inj hkept]
  · rw [treat, hmigrated] at hlost
    cases hlost

/-! ### A label that is lost -/

/-- A definition with a choice in its `allOf`. -/
def choiceDefinition : Json :=
  .obj [("allOf", .arr [.obj [("oneOf", .arr [.obj [("properties", .obj [("k", .obj [
    ("const", .num (.int 1)), ("title", .str "T")])])]])]])]

/-- References to a definition and to an element of its `allOf`. -/
def overlapDocument : Json :=
  .obj [("properties", .obj [("x", .obj [("$ref", .str "#/definitions/a")]),
      ("y", .obj [("$ref", .str "#/definitions/a/allOf/0")])]),
    ("definitions", .obj [("a", choiceDefinition)])]

/-- What a walk of it gives: the element has not kept its label. -/
def overlapMigration : Migration where
  schema := overlapDocument
  resolved := ["#/definitions/a", "#/definitions/a/allOf/0"]

theorem result_walk_overlapDocument :
    (walk ⟨Table.builtin, {}⟩ overlapDocument).result = .ok overlapMigration :=
  Trace.result_eq_ok_of_toOption (by decide +kernel)

theorem agreeOutside_iff_overlapsAgree_overlapDocument :
    (walk ⟨Table.builtin, {}⟩ overlapDocument).result = .ok overlapMigration ∧
      ["definitions", "a"] ∈ placesOf overlapMigration.resolved ∧
      overlapDocument.at? ["definitions", "a"] = some choiceDefinition ∧
      overlapMigration.schema.at? ["definitions", "a"] = some choiceDefinition ∧
      (choiceDefinition.AgreeOutside (fun below => throughDefinitions below = true)
          (migrate ⟨Table.builtin, {}⟩ .schema choiceDefinition) ↔
        overlapMigration.OverlapsAgree ⟨Table.builtin, {}⟩ overlapDocument ["definitions", "a"]
          choiceDefinition) :=
  have hplace : ["definitions", "a"] ∈ placesOf overlapMigration.resolved := by decide +kernel
  ⟨result_walk_overlapDocument, hplace, rfl, rfl,
    agreeOutside_iff_overlapsAgree result_walk_overlapDocument hplace rfl rfl⟩

/-- A reached definition need not show the migration of its target outside of definitions: a
    reference to an element of its `allOf` takes the label of the element away. -/
theorem not_agreeOutside_overlapDocument :
    (walk ⟨Table.builtin, {}⟩ overlapDocument).result = .ok overlapMigration ∧
      ["definitions", "a"] ∈ placesOf overlapMigration.resolved ∧
      ["definitions", "a"] ++ ["allOf", "0"] ∈ placesOf overlapMigration.resolved ∧
      throughDefinitions ["allOf", "0"] = false ∧
      overlapDocument.at? ["definitions", "a"] = some choiceDefinition ∧
      overlapMigration.schema.at? ["definitions", "a"] = some choiceDefinition ∧
      ¬ choiceDefinition.AgreeOutside (fun below => throughDefinitions below = true)
        (migrate ⟨Table.builtin, {}⟩ .schema choiceDefinition) := by
  refine ⟨result_walk_overlapDocument, by decide +kernel, by decide +kernel, by decide, rfl, rfl,
    ?_⟩
  rw [Json.agreeOutside_definitions_iff]
  intro hagree
  have helement := hagree ["allOf", "0"] (by decide)
  revert helement
  decide +kernel

end Dialect

end Relayout
