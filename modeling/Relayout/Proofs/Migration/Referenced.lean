/-
  Relayout/Proofs/Migration/Referenced.lean
  =========================================
  **Which referenced schemas a run migrates.**

  A run visits what a reference leads to if the reference leads into definitions, or if the visit
  of the root comes there, and then none of the claimed keys is left.  A reference may be of
  neither kind: it may lead into the value of a keyword that holds no schemas.  Then its target
  is copied with all of its extensions (`Transformer.referenced_run`).
-/
import Relayout.Proofs.Migration.Revisit

namespace Relayout

namespace Dialect

variable {d : Dialect} {document : Json} {m : Migration}

/-- Outside of definitions no start is at or above a place but the root. -/
theorem start_eq_nil_of_not_lazy (h : (d.walk document).result = .ok m) {start below : Place}
    (hstart : start ∈ m.starts) (hlazy : throughDefinitions (start ++ below) = false) :
    start = [] := by
  rcases List.mem_cons.1 hstart with hroot | hreached
  · exact hroot
  · have hdefinitions := (reached_place h hreached).1
    rw [throughDefinitions_above (List.prefix_append start below) hlazy] at hdefinitions
    cases hdefinitions

section Referenced

variable (h : (d.walk document).result = .ok m) (hdocument : document.WellFormed)

include h hdocument

/-- Outside of definitions a walk visits what the visit of the root does. -/
theorem visited_iff_of_not_lazy {place : Place} {target : Members}
    (hlazy : throughDefinitions place = false) (hat : document.at? place = some (.obj target)) :
    m.Visited document place target ↔
      ((Treatment.inRole .schema).below document place).visits = true := by
  constructor
  · rintro ⟨-, start, hstart, found, hfound, hvisit⟩
    obtain ⟨below, rfl, -, hvisits⟩ :=
      (Json.mem_visits_schema_iff (hdocument.at hfound) start).1 hvisit
    obtain rfl := start_eq_nil_of_not_lazy h hstart hlazy
    cases hfound
    exact hvisits
  · intro hvisits
    exact visited_of_below List.mem_cons_self rfl hat hvisits

variable {place : Place} {node : Members} (hvisited : m.Visited document place node) {ref : String}
  (href : node.get? "$ref" = some (.str ref)) {p : Pointer} (hp : Pointer.ofRef? ref = some p)

include hvisited href hp

/-- A visit starts where a visited reference into definitions leads. -/
theorem mem_starts_of_referenced (hlazy : p.isLazy = true) : p.place ∈ m.starts := by
  have hsearch := search_of_walk h
  have hleads : leadsIntoDefinitions ref = true := by rw [leadsIntoDefinitions_eq hp, hlazy]
  have hcarried : (Visit.mk place node).ref? = some ref := Json.ref?_eq_some_iff.2 href
  have hreach := ((Migration.visited_iff hsearch hdocument).1 hvisited).reachable hcarried hleads
  apply List.mem_cons_of_mem
  exact mem_placesOf.2 ⟨ref, hsearch.mem_iff_reachable.2 hreach, p, hp, rfl⟩

variable {target : Members} (hat : document.at? p.place = some (.obj target))

include hat

theorem visited_of_lazy (hlazy : p.isLazy = true) : m.Visited document p.place target := by
  have hstart := mem_starts_of_referenced h hdocument hvisited href hp hlazy
  have htarget : m.Visited document (p.place ++ []) target := visited_of_below hstart hat rfl rfl
  rwa [List.append_nil] at htarget

/-- What a reference leads to is visited in definitions, and where the visit of the root comes. -/
theorem visited_referenced_iff :
    m.Visited document p.place target ↔ p.isLazy = true ∨
      ((Treatment.inRole .schema).below document p.place).visits = true := by
  cases hlazy : p.isLazy with
  | true => simp [visited_of_lazy h hdocument hvisited href hp hat hlazy]
  | false =>
    rw [Pointer.isLazy_eq_throughDefinitions] at hlazy
    simp [visited_iff_of_not_lazy h hdocument hlazy hat]

/-- Whether the target of a reference is visited is decided by the visit of the deepest start. -/
theorem exists_deepest_of_referenced :
    ∃ start below found, p.place = start ++ below ∧ m.Deepest start below ∧
      document.at? start = some found ∧ found.at? below = some (.obj target) ∧
      (m.Visited document p.place target ↔
        ((Treatment.inRole .schema).below found below).visits = true) := by
  cases hlazy : p.isLazy with
  | true =>
    have hstart := mem_starts_of_referenced h hdocument hvisited href hp hlazy
    have htarget := visited_of_lazy h hdocument hvisited href hp hat hlazy
    exact ⟨p.place, [], .obj target, (List.append_nil _).symm, Migration.deepest_nil hstart, hat,
      rfl, iff_of_true htarget rfl⟩
  | false =>
    rw [Pointer.isLazy_eq_throughDefinitions] at hlazy
    obtain ⟨start, below, heq, hdeepest⟩ := m.exists_deepest p.place
    have htarget := visited_iff_of_not_lazy h hdocument hlazy hat
    rw [heq] at hlazy hat htarget ⊢
    obtain rfl := start_eq_nil_of_not_lazy h hdeepest.1 hlazy
    exact ⟨[], below, document, rfl, hdeepest, rfl, hat, htarget⟩

/-- What the target of a reference is in the result: without claimed keys if it was visited, and
    with all of its keys if it was not. -/
theorem exists_keys_of_referenced (id : String) {out : Json}
    (hout : (m.schema.stamped id).at? p.place = some out) :
    ∃ ns : Members, out = .obj ns ∧
      (m.Visited document p.place target → ∀ key ∈ ns.keys, d.table.recognizes key = false) ∧
      (¬ m.Visited document p.place target → ns.keys = target.keys) := by
  obtain ⟨start, below, found, heq, hdeepest, hfound, hbelow, hiff⟩ :=
    exists_deepest_of_referenced h hdocument hvisited href hp hat
  obtain ⟨ns, rfl⟩ : ∃ ns, out = .obj ns := by
    cases ((reworks_stamped_walk h id).at_place hat hout).root
    exact ⟨_, rfl⟩
  rw [heq] at hout
  have hsettled := settled_stamped_walk h hdocument id hdeepest hfound hbelow hout
  refine ⟨ns, rfl, ?_, ?_⟩
  · intro hmem
    exact hsettled.unclaimed (hiff.1 hmem) target ns rfl rfl
  · intro hnot
    rw [hiff, Bool.not_eq_true] at hnot
    exact Shape.obj.inj (hsettled.unvisited (Or.inl hnot))

end Referenced

end Dialect

namespace Transformer

/-- **A referenced object is migrated if it is in definitions or if the visit of the root comes to
    it**, and then it has no claimed key in the output.  Otherwise it keeps all of its keys. -/
theorem referenced_run {t : Transformer} {document : Json} (hdocument : document.WellFormed)
    {m : Migration} (h : (t.run document).result = .ok m) {place : Place} {node : Members}
    {ref : String} {p : Pointer} {target : Members} (hvisited : m.Visited document place node)
    (href : node.get? "$ref" = some (.str ref)) (hp : Pointer.ofRef? ref = some p)
    (hat : document.at? p.place = some (.obj target)) :
    (m.Visited document p.place target ↔ p.isLazy = true ∨
      ((Treatment.inRole .schema).below document p.place).visits = true) ∧
    ∀ out, m.schema.at? p.place = some out → ∃ ns : Members, out = .obj ns ∧
      (m.Visited document p.place target →
        ∀ key ∈ ns.keys, t.dialect.table.recognizes key = false) ∧
      (¬ m.Visited document p.place target → ns.keys = target.keys) := by
  obtain ⟨schema, hwalk, hstamped⟩ := exists_walk_of_run h
  obtain ⟨_, resolved⟩ := m
  obtain rfl : _ = schema.stamped t.rootId := hstamped
  constructor
  · exact Dialect.visited_referenced_iff hwalk hdocument hvisited href hp hat
  · intro out hout
    exact Dialect.exists_keys_of_referenced hwalk hdocument hvisited href hp hat t.rootId hout

/-- A document with a reference to a schema under a keyword that holds no schemas. -/
def componentDocument : Json :=
  .obj [("properties", .obj [("pet", .obj [("$ref", .str "#/components/schemas/pet")])]),
    ("components", .obj [("schemas", .obj [("pet", .obj [("x-display", .str "card")])])])]

/-- What a run of it gives. -/
def componentMigration : Migration where
  schema := .obj [("properties", .obj [("pet", .obj [("$ref", .str "#/components/schemas/pet")])]),
    ("components", .obj [("schemas", .obj [("pet", .obj [("x-display", .str "card")])])]),
    ("$id", .str "_jl")]
  resolved := []

theorem result_run_componentDocument :
    (run ⟨⟨Table.builtin, {}⟩, defaultRootId, none⟩ componentDocument).result
      = .ok componentMigration :=
  Trace.result_eq_ok_of_toOption (by decide +kernel)

theorem visited_componentDocument :
    componentMigration.Visited componentDocument ["properties", "pet"]
      [("$ref", .str "#/components/schemas/pet")] := by
  have hvisited : componentMigration.Visited componentDocument ([] ++ ["properties", "pet"])
      [("$ref", .str "#/components/schemas/pet")] :=
    Dialect.visited_of_below List.mem_cons_self rfl rfl rfl
  exact hvisited

theorem referenced_run_componentDocument :
    componentDocument.WellFormed ∧
      (run ⟨⟨Table.builtin, {}⟩, defaultRootId, none⟩ componentDocument).result
        = .ok componentMigration ∧
      Pointer.ofRef? "#/components/schemas/pet" = some ⟨["components", "schemas", "pet"]⟩ ∧
      componentDocument.at? ["components", "schemas", "pet"]
        = some (.obj [("x-display", .str "card")]) ∧
      (componentMigration.Visited componentDocument ["components", "schemas", "pet"]
          [("x-display", .str "card")] ↔
        Pointer.isLazy ⟨["components", "schemas", "pet"]⟩ = true ∨
          ((Treatment.inRole .schema).below componentDocument
            ["components", "schemas", "pet"]).visits = true) ∧
      ∀ out, componentMigration.schema.at? ["components", "schemas", "pet"] = some out →
        ∃ ns : Members, out = .obj ns ∧
          (componentMigration.Visited componentDocument ["components", "schemas", "pet"]
            [("x-display", .str "card")] → ∀ key ∈ ns.keys, Table.builtin.recognizes key = false) ∧
          (¬ componentMigration.Visited componentDocument ["components", "schemas", "pet"]
            [("x-display", .str "card")] →
              ns.keys = Members.keys [("x-display", .str "card")]) := by
  have hdocument : componentDocument.WellFormed := by
    simp [componentDocument, Json.WellFormed, Json.MembersWellFormed, Members.keys]
  have hp : Pointer.ofRef? "#/components/schemas/pet"
      = some ⟨["components", "schemas", "pet"]⟩ := by decide +kernel
  have hplace : Pointer.place ⟨["components", "schemas", "pet"]⟩
      = ["components", "schemas", "pet"] := by decide +kernel
  have hreferenced := referenced_run hdocument result_run_componentDocument
    visited_componentDocument rfl hp (by rw [hplace]; rfl)
  rw [hplace] at hreferenced
  exact ⟨hdocument, result_run_componentDocument, hp, rfl, hreferenced⟩

/-- A referenced schema need not be visited, and then its extensions are in the output. -/
theorem not_visited_componentDocument :
    (run ⟨⟨Table.builtin, {}⟩, defaultRootId, none⟩ componentDocument).result
        = .ok componentMigration ∧
      componentMigration.Visited componentDocument ["properties", "pet"]
        [("$ref", .str "#/components/schemas/pet")] ∧
      Pointer.ofRef? "#/components/schemas/pet" = some ⟨["components", "schemas", "pet"]⟩ ∧
      componentDocument.at? ["components", "schemas", "pet"]
        = some (.obj [("x-display", .str "card")]) ∧
      ¬ componentMigration.Visited componentDocument ["components", "schemas", "pet"]
        [("x-display", .str "card")] ∧
      componentMigration.schema.at? ["components", "schemas", "pet"]
        = some (.obj [("x-display", .str "card")]) ∧
      Table.builtin.recognizes "x-display" = true := by
  refine ⟨result_run_componentDocument, visited_componentDocument, by decide +kernel, rfl, ?_, rfl,
    by decide⟩
  rintro ⟨-, start, hstart, target, htarget, hvisit⟩
  obtain rfl := List.mem_singleton.1 hstart
  cases htarget
  have hplaces : (componentDocument.visits .schema []).map Visit.place
      = [["properties", "pet"], []] := by decide +kernel
  have hplace := List.mem_map_of_mem (f := Visit.place) hvisit
  rw [hplaces] at hplace
  exact absurd hplace (by decide)

end Transformer

end Relayout
