/-
  Relayout/Proofs/Migration/Refinement.lean
  =========================================
  **A walk gives the structural migration, start by start.**

  What a node is built to depends on nothing but the node: one pass that hands a state on from
  node to node does what a walk does (`Dialect.traverse_eq_walk`), and a walk builds with
  `Dialect.migrate`.  What is left to tell is where the definitions end up that it puts back.
  `Migration.Refines` says it of every place of the result: the root and each reached definition
  are migrated, and what else is in definitions is copied (`Dialect.refines_walk`).  For this,
  one reached definition may lie inside another only among the definitions that the other
  declares itself (`Migration.Separated`).  Nothing more is to be told: there is one result that
  it holds of (`Migration.Refines.shapeAt_eq`).

  Two kinds of places are not copied although a keyword for definitions is on the way there.  An
  extension is data to the walk, and may hold a member with that name.  The extension is taken
  out with all that it holds, and `x-props` and `x-cols` put what they hold into the layout, the
  member included.  So not every walk copies its definitions
  (`Dialect.not_copiesDefinitions_propsDocument`).
-/
import Relayout.Proofs.Migration.Traversal
import Relayout.Proofs.Migration.Walk
import Relayout.Proofs.Migration.Yield

namespace Relayout

namespace Migration

/-- No reached definition lies below another, except through a keyword for definitions. -/
def Separated (m : Migration) : Prop :=
  ∀ place ∈ placesOf m.resolved, ∀ below, below ≠ [] → place ++ below ∈ placesOf m.resolved →
    throughDefinitions below = true

/-- What is in definitions, and neither at nor below a reached one, is as in the document. -/
def CopiesDefinitions (m : Migration) (document : Json) : Prop :=
  ∀ place, throughDefinitions place = true →
    (∀ start ∈ placesOf m.resolved, ¬ start <+: place) →
    m.schema.shapeAt place = document.shapeAt place

/-- The document has nothing at the place, and the result has there what the layout has that a
    visited object got. -/
def ShowsLayout (m : Migration) (d : Dialect) (document : Json) (place : Place) : Prop :=
  document.at? place = none ∧
    ∃ above rest node layout, place = above ++ "layout" :: rest ∧ m.Visited document above node ∧
      d.table.layout? ⟨"", node, d.detector⟩ = some layout ∧
      m.schema.shapeAt place = layout.toJson.shapeAt rest

/-- The result of a walk, told from the structural migration alone. -/
structure Refines (m : Migration) (d : Dialect) (document : Json) : Prop where
  /-- Outside of reached definitions, the result is the migrated root. -/
  root : m.schema.AgreeOutside (· ∈ placesOf m.resolved) (d.migrate .schema document)
  /-- Every reference that is listed leads into definitions.  Where its target still has its
      place, the result is the target migrated, except at reached definitions nested in it. -/
  reached : ∀ ref ∈ m.resolved, ∃ p target, Pointer.ofRef? ref = some p ∧
    throughDefinitions p.place = true ∧ document.at? p.place = some target ∧
    ∀ out, m.schema.at? p.place = some out →
      out.AgreeOutside
        (fun below => throughDefinitions below = true ∧ p.place ++ below ∈ placesOf m.resolved)
        (d.migrate .schema target)
  /-- A place in definitions that no reached definition owns, since the way down from each one
      above it leads through definitions again, is as in the document, or in the layout of a
      visited object, or was consumed. -/
  copied : ∀ place, throughDefinitions place = true →
    (∀ start ∈ placesOf m.resolved, ∀ below, place = start ++ below →
      throughDefinitions below = true) →
    m.schema.shapeAt place = document.shapeAt place ∨
      m.ShowsLayout d document place ∨
      m.schema.at? place = none ∧ m.Consumed d.table document place

end Migration

namespace Dialect

variable {d : Dialect} {document : Json} {m : Migration}

/-! ### The root and the reached definitions -/

theorem agreeOutside_root (h : (d.walk document).result = .ok m) :
    m.schema.AgreeOutside (· ∈ placesOf m.resolved) (d.migrate .schema document) := by
  intro place hplace
  apply shapeAt_walk_of_not_reached h
  intro above habove hupto
  exact hplace above hupto habove

/-- A reached definition is its target migrated, down to those that are nested in it. -/
theorem agreeOutside_reached (h : (d.walk document).result = .ok m) (hseparated : m.Separated)
    {place : Place} (hplace : place ∈ placesOf m.resolved) {target out : Json}
    (htarget : document.at? place = some target) (hout : m.schema.at? place = some out) :
    out.AgreeOutside
      (fun below => throughDefinitions below = true ∧ place ++ below ∈ placesOf m.resolved)
      (d.migrate .schema target) := by
  intro below hbelow
  have hdeepest : m.Deepest place ([] ++ below) := by
    apply (Migration.deepest_nil (List.mem_cons_of_mem [] hplace)).append
    intro above hupto hne hreached
    rw [List.append_nil] at hreached
    exact hbelow above hupto ⟨hseparated place hplace above hne hreached, hreached⟩
  rw [← Json.shapeAt_append_of_eq_some hout]
  exact shapeAt_walk h hdeepest htarget (by simp [hout])

theorem exists_target_of_resolved (h : (d.walk document).result = .ok m) {ref : String}
    (href : ref ∈ m.resolved) :
    ∃ p target, Pointer.ofRef? ref = some p ∧ throughDefinitions p.place = true ∧
      document.at? p.place = some target := by
  obtain ⟨arena, -, hkept, -⟩ := exists_arena_of_walk h
  obtain ⟨⟨p, w⟩, -, hp, hlazy, target, htarget, -⟩ := hkept ref href
  rw [Pointer.isLazy_eq_throughDefinitions] at hlazy
  exact ⟨p, target, hp, hlazy, htarget⟩

/-! ### Definitions that were not reached -/

/-- What is in definitions that the migration of a start does not reach is copied by it. -/
theorem at?_migrate_of_throughDefinitions {target v : Json} {below : Place}
    (hv : target.at? below = some v) (hlazy : throughDefinitions below = true)
    (hslot : (d.migrate .schema target).at? below ≠ none) :
    (d.migrate .schema target).at? below = some v := by
  rcases d.at?_treat (t := .inRole .schema) hv with hkept | ⟨hlost, -⟩
  · rw [Treatment.below_eq_verbatim target hlazy] at hkept
    simpa [treat] using hkept
  · exact absurd hlost hslot

/-- What a migration gives a value that was not there was gained by an object that it visits. -/
theorem gained_of_child?_treat {t : Treatment} {v b : Json} {name : String}
    (hnone : v.child? name = none) (hb : (d.treat t v).child? name = some b) :
    ∃ node, v = .obj node ∧ t.visits = true ∧ d.Gained node (name, b) := by
  rcases t.visited_or_not v with ⟨ht, node, rfl⟩ | hnot
  · refine ⟨node, rfl, ht, ?_⟩
    have hyields := d.yields_treat t (.obj node)
    obtain ⟨ns, hns⟩ := hyields.exists_obj
    rw [hns] at hyields hb
    rcases hyields.get?_cases hb with ⟨a, ha, -⟩ | hgained
    · rw [show Members.get? node name = none from hnone] at ha
      cases ha
    · exact hgained
  · have hshape : (d.treat t v).shape = v.shape := d.shape_treat_of_not_visits hnot
    rw [Json.child?_eq_none_of_shape_eq hshape.symm hnone] at hb
    cases hb

/-- What a migration shows where there was nothing lies in what a visited object gained. -/
theorem gained_of_at?_treat {t : Treatment} {v b : Json} {place : Place}
    (hnone : v.at? place = none) (hb : (d.treat t v).at? place = some b) :
    ∃ (above : Place) (name : String) (rest : Place) (node : Members) (added : Json),
      place = above ++ name :: rest ∧ v.at? above = some (.obj node) ∧
      (t.below v above).visits = true ∧ d.Gained node (name, added) ∧
      added.at? rest = some b := by
  induction place generalizing t v with
  | nil => cases hnone
  | cons name place ih =>
    rw [Json.at?_cons] at hnone
    rw [Json.at?_cons, Option.bind_eq_some_iff] at hb
    obtain ⟨c, hc, hat⟩ := hb
    cases hchild : v.child? name with
    | none =>
      obtain ⟨node, rfl, ht, hgained⟩ := gained_of_child?_treat hchild hc
      exact ⟨[], name, place, node, c, rfl, rfl, ht, hgained, hat⟩
    | some w =>
      rw [hchild, Option.bind_some] at hnone
      rcases d.child?_treat t hchild with hkept | ⟨hlost, -⟩
      · obtain rfl : d.treat (t.child v name) w = c := Option.some.inj (hkept.symm.trans hc)
        obtain ⟨above, key, rest, node, added, rfl, hnode, hvisits, hgained⟩ := ih hnone hat
        refine ⟨name :: above, key, rest, node, added, rfl, ?_, ?_, hgained⟩
        · rw [Json.at?_cons, hchild, Option.bind_some, hnode]
        · simpa only [Treatment.below, hchild] using hvisits
      · rw [hlost] at hc
        cases hc

/-- The label of a choice has no members that could hold definitions. -/
theorem throughDefinitions_of_at?_label {title : String} {place : Place} {b : Json}
    (h : (OneOfLayout.mk title).toJson.at? place = some b) : throughDefinitions place = false := by
  cases place with
  | nil => rfl
  | cons name rest =>
    rw [Json.at?_cons, Option.bind_eq_some_iff] at h
    obtain ⟨c, hc, hat⟩ := h
    obtain ⟨rfl, rfl⟩ : name = "label" ∧ c = .str title := by
      simpa [OneOfLayout.toJson, Json.child?, Members.get?, eq_comm] using hc
    cases rest with
    | nil => decide
    | cons key rest => cases hat

/-- What a migration shows in definitions where there was nothing lies in a layout. -/
theorem exists_layout_of_throughDefinitions {target b : Json} {below : Place}
    (hnone : target.at? below = none) (hlazy : throughDefinitions below = true)
    (hb : (d.migrate .schema target).at? below = some b) :
    ∃ (above rest : Place) (node : Members) (layout : Layout),
      below = above ++ "layout" :: rest ∧ target.at? above = some (.obj node) ∧
      ((Treatment.inRole .schema).below target above).visits = true ∧
      d.table.layout? ⟨"", node, d.detector⟩ = some layout ∧
      layout.toJson.at? rest = some b := by
  obtain ⟨above, name, rest, node, added, rfl, hnode, hvisits, hgained, hat⟩ :=
    gained_of_at?_treat (t := .inRole .schema) hnone hb
  rcases hgained.2 with ⟨layout, hlayout, heq⟩ | ⟨title, heq⟩
  · obtain ⟨rfl, rfl⟩ := Prod.mk.inj heq
    exact ⟨above, rest, node, layout, rfl, hnode, hvisits, hlayout, hat⟩
  · obtain ⟨rfl, rfl⟩ := Prod.mk.inj heq
    have habove : throughDefinitions above = false := by
      rw [Bool.eq_false_iff]
      intro h
      rw [Treatment.below_eq_verbatim target h] at hvisits
      cases hvisits
    have hrest : throughDefinitions rest = false := throughDefinitions_of_at?_label hat
    have hlabel : throughDefinitions (above ++ "oneOfLayout" :: rest) = false := by
      rcases throughDefinitions_append_of_eq_false habove ("oneOfLayout" :: rest) with heq | heq
      · rw [heq, throughDefinitions_cons, if_neg (by decide), if_neg (by decide), hrest]
      · rw [heq, List.tail_cons, hrest]
    rw [hlabel] at hlazy
    cases hlazy

/-- A place in the definitions of the deepest start above it is copied, or in a layout, or was
    consumed. -/
theorem copied_of_deepest (h : (d.walk document).result = .ok m) {start below : Place}
    (hdeepest : m.Deepest start below) (hlazy : throughDefinitions below = true) :
    m.schema.shapeAt (start ++ below) = document.shapeAt (start ++ below) ∨
      m.ShowsLayout d document (start ++ below) ∨
      m.schema.at? (start ++ below) = none ∧ m.Consumed d.table document (start ++ below) := by
  obtain ⟨target, htarget⟩ := exists_target_of_mem_starts h hdeepest.1
  have hdocument := Json.at?_append_of_eq_some htarget below
  cases hout : m.schema.at? (start ++ below) with
  | none =>
    cases hv : document.at? (start ++ below) with
    | none => exact Or.inl (by rw [Json.shapeAt, Json.shapeAt, hout, hv])
    | some v => exact Or.inr (Or.inr ⟨rfl, consumed_of_lost h hv hout⟩)
  | some out =>
    have hplace : m.schema.at? (start ++ below) ≠ none := by simp [hout]
    have hshape := shapeAt_walk h hdeepest htarget (Json.at?_ne_none_of_append hplace)
    have hslot : (d.migrate .schema target).at? below ≠ none := by
      rwa [Ne, ← Json.shapeAt_eq_none_iff, ← hshape, Json.shapeAt_eq_none_iff]
    cases hv : target.at? below with
    | some v =>
      left
      rw [hshape, Json.shapeAt, Json.shapeAt, hdocument, hv,
        at?_migrate_of_throughDefinitions hv hlazy hslot]
    | none =>
      obtain ⟨b, hb⟩ := Option.ne_none_iff_exists'.1 hslot
      obtain ⟨above, rest, node, layout, rfl, hnode, hvisits, hlayout, hat⟩ :=
        exists_layout_of_throughDefinitions hv hlazy hb
      refine Or.inr (Or.inl ⟨hdocument.trans hv, start ++ above, rest, node, layout, ?_,
        visited_of_below hdeepest.1 htarget hnode hvisits, hlayout, ?_⟩)
      · rw [List.append_assoc]
      · rw [hshape, Json.shapeAt, Json.shapeAt, hb, hat]

end Dialect

/-! ### What is told determines the result -/

namespace Migration

variable {d : Dialect} {document : Json} {m m' : Migration}

theorem Refines.of_mem_placesOf (h : m.Refines d document) {place : Place}
    (hplace : place ∈ placesOf m.resolved) :
    throughDefinitions place = true ∧ ∃ target, document.at? place = some target ∧
      ∀ out, m.schema.at? place = some out →
        out.AgreeOutside
          (fun below => throughDefinitions below = true ∧ place ++ below ∈ placesOf m.resolved)
          (d.migrate .schema target) := by
  obtain ⟨ref, href, p, hp, rfl⟩ := mem_placesOf.1 hplace
  obtain ⟨q, target, hq, hlazy, htarget, hout⟩ := h.reached ref href
  obtain rfl : p = q := by simpa [hp] using hq
  exact ⟨hlazy, target, htarget, hout⟩

theorem Refines.nil_not_mem (h : m.Refines d document) : [] ∉ placesOf m.resolved := by
  intro hmem
  cases (h.of_mem_placesOf hmem).1

theorem Refines.shapeAt_root (h : m.Refines d document) {place : Place}
    (hdeepest : m.Deepest [] place) :
    m.schema.shapeAt place = (d.migrate .schema document).shapeAt place := by
  refine h.root place (fun above hupto hmem => h.nil_not_mem ?_)
  obtain rfl := hdeepest.2 above (List.mem_cons_of_mem _ hmem) List.nil_prefix hupto
  exact hmem

/-- Where a reached definition is the deepest start and has its place, it is seen migrated. -/
theorem Refines.shapeAt_reached (h : m.Refines d document) {place below : Place}
    (hplace : place ∈ placesOf m.resolved) (hdeepest : m.Deepest place below) {target : Json}
    (htarget : document.at? place = some target) (hslot : m.schema.at? place ≠ none) :
    m.schema.shapeAt (place ++ below) = (d.migrate .schema target).shapeAt below := by
  obtain ⟨-, target', htarget', hreached⟩ := h.of_mem_placesOf hplace
  obtain rfl : target = target' := by simpa [htarget] using htarget'
  obtain ⟨out, hout⟩ := Option.ne_none_iff_exists'.1 hslot
  rw [Json.shapeAt_append_of_eq_some hout]
  refine hreached out hout below (fun above hupto hnested => ?_)
  -- a nested start on the way would be deeper
  have hsame := hdeepest.2 (place ++ above) (List.mem_cons_of_mem _ hnested.2)
    (List.prefix_append _ _) ((List.prefix_append_right_inj _).2 hupto)
  obtain rfl : above = [] := by simpa using hsame
  cases hnested.1

/-- Two results that are told in this way, with the same references, are the same. -/
theorem Refines.shapeAt_eq (h : m.Refines d document) (h' : m'.Refines d document)
    (hresolved : m'.resolved = m.resolved) (place : Place) :
    m.schema.shapeAt place = m'.schema.shapeAt place := by
  have hstarts {start below : Place} (hdeepest : m.Deepest start below) :
      m'.Deepest start below := by
    simpa only [Deepest, starts, hresolved] using hdeepest
  induction hn : place.length using Nat.strongRecOn generalizing place with
  | _ n ih =>
    obtain ⟨start, below, rfl, hdeepest⟩ := m.exists_deepest place
    rcases List.mem_cons.1 hdeepest.1 with rfl | hplace
    · exact (h.shapeAt_root hdeepest).trans (h'.shapeAt_root (hstarts hdeepest)).symm
    · cases start using List.reverseRecOn with
      | nil => exact absurd hplace h.nil_not_mem
      | append_singleton parent name =>
        have hparent := ih parent.length (by simp [← hn]) parent rfl
        have hlost {v : Json} (hv : v.at? (parent ++ [name]) = none) :
            v.shapeAt (parent ++ [name] ++ below) = none := by
          rw [Json.shapeAt_eq_none_iff, Json.at?_append _ (parent ++ [name]), hv, Option.bind_none]
        by_cases hslot : m.schema.at? (parent ++ [name]) = none
        · rw [hlost hslot, hlost (Json.at?_append_singleton_eq_none hparent hslot)]
        · have hslot' : m'.schema.at? (parent ++ [name]) ≠ none :=
            fun hnone => hslot (Json.at?_append_singleton_eq_none hparent.symm hnone)
          have hplace' : parent ++ [name] ∈ placesOf m'.resolved := hresolved ▸ hplace
          obtain ⟨-, target, htarget, -⟩ := h.of_mem_placesOf hplace
          exact (h.shapeAt_reached hplace hdeepest htarget hslot).trans
            (h'.shapeAt_reached hplace' (hstarts hdeepest) htarget hslot').symm

end Migration

/-! ### Walks -/

namespace Dialect

variable {d : Dialect} {document : Json}

/-- **A walk that succeeds gives the structural migration** of the root and of every reached
    definition.  The rest of its definitions is copied, except in layouts, and gone only with
    what was consumed. -/
theorem refines_walk (hdocument : document.WellFormed) :
    d.traverse document = d.walk document ∧
      ∀ m, (d.walk document).result = .ok m → m.Separated → m.Refines d document := by
  refine ⟨traverse_eq_walk hdocument, fun m h hseparated => ⟨agreeOutside_root h, ?_, ?_⟩⟩
  · intro ref href
    obtain ⟨p, target, hp, hlazy, htarget⟩ := exists_target_of_resolved h href
    have hplace : p.place ∈ placesOf m.resolved := mem_placesOf.2 ⟨ref, href, p, hp, rfl⟩
    exact ⟨p, target, hp, hlazy, htarget, fun out =>
      agreeOutside_reached h hseparated hplace htarget⟩
  · intro place hlazy hown
    obtain ⟨start, below, rfl, hdeepest⟩ := m.exists_deepest place
    apply copied_of_deepest h hdeepest
    rcases List.mem_cons.1 hdeepest.1 with rfl | hreached
    · exact hlazy
    · exact hown start hreached below rfl

/-- A document with a reached definition that declares two of its own, one of them reached. -/
def nestedDocument : Json :=
  .obj [("properties", .obj [("x", .obj [("$ref", .str "#/definitions/a")])]),
    ("definitions", .obj [("a", .obj [("x-display", .str "card"),
      ("not", .obj [("$ref", .str "#/definitions/a/definitions/b")]),
      ("definitions", .obj [("b", .obj [("x-display", .str "chip")]),
        ("c", .obj [("x-display", .str "list")])])])])]

/-- What a walk of it gives. -/
def nestedMigration : Migration where
  schema := .obj [("properties", .obj [("x", .obj [("$ref", .str "#/definitions/a")])]),
    ("definitions", .obj [("a", .obj [
      ("not", .obj [("$ref", .str "#/definitions/a/definitions/b")]),
      ("definitions", .obj [("b", .obj [("layout", .str "chip")]),
        ("c", .obj [("x-display", .str "list")])]),
      ("layout", .str "card")])])]
  resolved := ["#/definitions/a", "#/definitions/a/definitions/b"]

theorem separated_nestedMigration : nestedMigration.Separated := by
  have hplaces : placesOf nestedMigration.resolved
      = [["definitions", "a"], ["definitions", "a", "definitions", "b"]] := by decide
  intro place hplace below hne hmem
  rw [hplaces] at hplace hmem
  simp only [List.mem_cons, List.not_mem_nil, or_false] at hplace
  rcases hplace with rfl | rfl
  · obtain rfl : below = ["definitions", "b"] := by simpa [hne] using hmem
    rfl
  · simp [hne] at hmem

theorem refines_walk_nestedDocument :
    nestedDocument.WellFormed ∧
      (walk ⟨Table.builtin, {}⟩ nestedDocument).result = .ok nestedMigration ∧
      nestedMigration.Separated ∧
      nestedMigration.Refines ⟨Table.builtin, {}⟩ nestedDocument :=
  have hdocument : nestedDocument.WellFormed := by
    simp [nestedDocument, Json.WellFormed, Json.MembersWellFormed, Members.keys]
  have hwalk : (walk ⟨Table.builtin, {}⟩ nestedDocument).result = .ok nestedMigration :=
    Trace.result_eq_ok_of_toOption (by decide +kernel)
  ⟨hdocument, hwalk, separated_nestedMigration,
    (refines_walk hdocument).2 nestedMigration hwalk separated_nestedMigration⟩

/-- A document with a member named after definitions in an extension. -/
def propsDocument : Json :=
  .obj [("x-props", .obj [("definitions", .obj [("a", .str "right")])])]

/-- What a walk of it gives. -/
def propsMigration : Migration where
  schema := .obj [("layout", .obj [("props", .obj [("definitions", .obj [("a", .str "right")])])])]
  resolved := []

/-- Definitions in the properties of an extension move into the layout with them. -/
theorem not_copiesDefinitions_propsDocument :
    propsDocument.WellFormed ∧
      (walk ⟨Table.builtin, {}⟩ propsDocument).result = .ok propsMigration ∧
      propsMigration.Separated ∧ ¬ propsMigration.CopiesDefinitions propsDocument := by
  refine ⟨?_, Trace.result_eq_ok_of_toOption (by decide +kernel), ?_, ?_⟩
  · simp [propsDocument, Json.WellFormed, Json.MembersWellFormed, Members.keys]
  · intro place hplace
    cases hplace
  · intro hcopies
    have hplace := hcopies ["x-props", "definitions", "a"] (by decide) (by
      intro start hstart
      cases hstart)
    revert hplace
    decide

end Dialect

end Relayout
