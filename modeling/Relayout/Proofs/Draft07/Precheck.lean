/-
  Relayout/Proofs/Draft07/Precheck.lean
  =====================================
  **What checking a schema first says of the objects that a walk visits.**

  The meta-schema and the walk have a list of keywords each, and the lists agree: what holds
  schemas for the walk has to hold schemas (`Role.expectation_mem_expectations`).  So a visit of a
  schema comes to schemas only (`Json.fits_of_mem_visits`).  The meta-schema asks for schemas in
  `definitions` as well, but `$defs` is no keyword to it, and a reference may lead there, or below
  a value that it leaves free.  `Json.Covered` says which places are checked; only at the others can
  a run fail because a reference is no text (`Transformer.prechecked_run`).
-/
import Relayout.Migration.Transformer
import Relayout.Proofs.Draft07.Fits
import Relayout.Proofs.Migration.Success

namespace Relayout

open Draft07

/-- What the meta-schema can ask for where a walk finds a value in a role. -/
def Role.expectations : Role → List Expectation
  | .schema => [.schema]
  | .schemaMap => [.schemaMap, .patternMap, .dependencyMap]
  | .schemaList | .labelledList => [.schemas]
  | .schemaOrList => [.schemaOrSchemas]
  | .verbatim => []

/-- The keywords that hold schemas for a walk have to hold schemas. -/
theorem Role.expectation_mem_expectations {keyword : String}
    (h : Role.ofKeyword keyword ≠ .verbatim) :
    expectation keyword ∈ (Role.ofKeyword keyword).expectations := by
  have hall : ∀ keyword ∈ traversalOrder,
      expectation keyword ∈ (Role.ofKeyword keyword).expectations := by decide
  exact hall keyword (Json.mem_traversalOrder h)

/-- A value is what the meta-schema can ask for where it is so treated. -/
inductive Treatment.Suits : Treatment → Json → Prop where
  | verbatim (v : Json) : Suits (.inRole .verbatim) v
  | fits {t : Treatment} {E : Expectation} {v : Json} :
    E ∈ t.role.expectations → Fits E v → Suits t v
  /-- A dependency may be a list of names where the walk looks for a schema. -/
  | names {t : Treatment} (xs : List Json) : t.role = .schema → Suits t (.arr xs)

namespace Treatment.Suits

variable {t : Treatment} {name : String}

theorem ofKeyword {keyword : String} {v : Json} (h : Fits (expectation keyword) v) :
    (inRole (Role.ofKeyword keyword)).Suits v := by
  by_cases hrole : Role.ofKeyword keyword = .verbatim
  · rw [hrole]
    exact .verbatim v
  · exact .fits (Role.expectation_mem_expectations hrole) h

/-- A visited object that is what the meta-schema asks for is a schema. -/
theorem fits_schema {ms : Members} (h : t.Suits (.obj ms)) (hvisits : t.visits = true) :
    Fits .schema (.obj ms) := by
  cases h with
  | verbatim => cases hvisits
  | fits hE hfits =>
    rcases of_visits_eq_true hvisits with rfl | rfl | rfl
    · rwa [List.mem_singleton.1 hE] at hfits
    · rw [List.mem_singleton.1 hE, Fits.schemaOrSchemas_iff] at hfits
      rcases hfits with hschema | hschemas
      · exact hschema
      · obtain ⟨_, harr, -⟩ := Fits.schemas_iff.1 hschemas
        cases harr
    · rwa [List.mem_singleton.1 hE] at hfits

theorem child_of_visits {ms : Members} (h : t.Suits (.obj ms)) (hvisits : t.visits = true)
    {w : Json} (hchild : ms.get? name = some w) : (t.child (.obj ms) name).Suits w := by
  rw [Treatment.child_of_visits hvisits]
  exact .ofKeyword (Fits.schema_obj_iff.1 (h.fits_schema hvisits) name w hchild)

theorem child_of_entries {ms : Members} (h : (inRole .schemaMap).Suits (.obj ms)) {w : Json}
    (hchild : ms.get? name = some w) : (inRole .schema).Suits w := by
  have hentry := Members.mem_of_get?_eq_some hchild
  have hschema (hw : Fits .schema w) : (inRole .schema).Suits w :=
    .fits (List.mem_singleton.2 rfl) hw
  cases h with
  | fits hE hfits =>
    obtain rfl | rfl | rfl : _ = Expectation.schemaMap ∨ _ = Expectation.patternMap ∨
        _ = Expectation.dependencyMap := by simpa [role, Role.expectations] using hE
    · obtain ⟨_, ⟨⟩, hms⟩ := Fits.schemaMap_iff.1 hfits
      exact hschema (hms _ hentry)
    · obtain ⟨_, ⟨⟩, hms, -⟩ := Fits.patternMap_iff.1 hfits
      exact hschema (hms _ hentry)
    · obtain ⟨_, ⟨⟩, hms⟩ := Fits.dependencyMap_iff.1 hfits
      by_cases hnames : AreNames w
      · obtain ⟨xs, rfl, -⟩ := hnames
        exact .names xs rfl
      · exact hschema (hms _ hentry hnames)

/-- The elements of an array in which a walk looks for schemas are schemas. -/
theorem fits_elements {xs : List Json} (h : t.Suits (.arr xs))
    (ht : t = .inRole .schemaList ∨ t = .inRole .labelledList ∨ t = .inRole .schemaOrList) :
    ∀ x ∈ xs, Fits .schema x := by
  have hschemas : Fits .schemas (.arr xs) := by
    cases h with
    | verbatim => simp at ht
    | names _ hrole => rcases ht with rfl | rfl | rfl <;> cases hrole
    | fits hE hfits =>
      rcases ht with rfl | rfl | rfl
      · rwa [List.mem_singleton.1 hE] at hfits
      · rwa [List.mem_singleton.1 hE] at hfits
      · rw [List.mem_singleton.1 hE, Fits.schemaOrSchemas_iff] at hfits
        exact hfits.resolve_left (not_fits_schema_arr xs)
  obtain ⟨_, ⟨⟩, -, hxs⟩ := Fits.schemas_iff.1 hschemas
  exact hxs

/-- What the meta-schema asks of a value it asks of each child that a walk looks at. -/
theorem child {v w : Json} (h : t.Suits v) (hchild : v.child? name = some w) :
    (t.child v name).Suits w := by
  cases v with
  | null | bool | num | str => cases hchild
  | obj ms =>
    cases ht : t.visits with
    | true => exact h.child_of_visits ht hchild
    | false =>
      rcases of_visits_eq_false ht with rfl | rfl | rfl | rfl
      · exact h.child_of_entries hchild
      · exact .verbatim w
      · exact .verbatim w
      · exact .verbatim w
  | arr xs =>
    obtain ⟨i, -, hx⟩ := Option.bind_eq_some_iff.1 hchild
    have hmem := List.mem_of_getElem? hx
    cases t with
    | inRole role =>
      cases role with
      | schema | schemaMap | verbatim => exact .verbatim w
      | schemaList =>
        exact .fits (List.mem_singleton.2 rfl) (h.fits_elements (Or.inl rfl) w hmem)
      | labelledList =>
        exact .fits (List.mem_singleton.2 rfl) (h.fits_elements (Or.inr (Or.inl rfl)) w hmem)
      | schemaOrList =>
        exact .fits (List.mem_singleton.2 rfl) (h.fits_elements (Or.inr (Or.inr rfl)) w hmem)
    | labelled => exact .verbatim w

theorem below {v w : Json} (h : t.Suits v) {place : Place} (hat : v.at? place = some w) :
    (t.below v place).Suits w := by
  induction place generalizing t v with
  | nil =>
    cases hat
    exact h
  | cons name place ih =>
    rw [Json.at?_cons, Option.bind_eq_some_iff] at hat
    obtain ⟨child, hchild, hat⟩ := hat
    simp only [Treatment.below, hchild]
    exact ih (h.child hchild) hat

end Treatment.Suits

namespace Json

/-! ### Places that are checked -/

/-- The places of a document at which the meta-schema asks for a schema: the root, what a visit
    from such a place comes to, and the entries of `definitions` there. -/
inductive Covered (document : Json) : Place → Prop where
  | root : Covered document []
  | visit {start : Place} {target : Json} {visit : Visit} : Covered document start →
    document.at? start = some target → visit ∈ target.visits .schema start →
    Covered document visit.place
  | definition {place : Place} {node entries : Members} {name : String} :
    Covered document place → document.at? place = some (.obj node) →
    node.get? "definitions" = some (.obj entries) → name ∈ entries.keys →
    Covered document (place ++ ["definitions", name])

variable {document : Json}

/-- A visit of a schema comes to schemas only. -/
theorem fits_of_mem_visits {v : Json} (hv : v.WellFormed) (h : Fits .schema v) {start : Place}
    {visit : Visit} (hvisit : visit ∈ v.visits .schema start) : Fits .schema (.obj visit.node) := by
  obtain ⟨below, -, hat, hvisits⟩ := (mem_visits_schema_iff hv start).1 hvisit
  have hsuits : (Treatment.inRole .schema).Suits v := .fits (List.mem_singleton.2 rfl) h
  exact (hsuits.below hat).fits_schema hvisits

/-- The entries of `definitions` of a schema are schemas. -/
theorem fits_definition {node entries : Members} (h : Fits .schema (.obj node))
    (hentries : node.get? "definitions" = some (.obj entries)) {name : String} {v : Json}
    (hv : entries.get? name = some v) : Fits .schema v := by
  have hmap : Fits .schemaMap (.obj entries) :=
    Fits.schema_obj_iff.1 h "definitions" (.obj entries) hentries
  obtain ⟨_, ⟨⟩, hall⟩ := Fits.schemaMap_iff.1 hmap
  exact hall _ (Members.mem_of_get?_eq_some hv)

/-- What is at a place that is checked is a schema. -/
theorem Covered.fits (hdocument : document.WellFormed) (hfits : Fits .schema document)
    {place : Place} (h : document.Covered place) {v : Json} (hat : document.at? place = some v) :
    Fits .schema v := by
  induction h generalizing v with
  | root =>
    cases hat
    exact hfits
  | @visit start target visit _ htarget hvisit ih =>
    have htargetWell := hdocument.at htarget
    obtain ⟨below, hplace, hnode, -⟩ := (mem_visits_schema_iff htargetWell start).1 hvisit
    rw [hplace, at?_append_of_eq_some htarget, hnode] at hat
    cases hat
    exact fits_of_mem_visits htargetWell (ih htarget) hvisit
  | @definition place node entries name _ hnode hentries _ ih =>
    rw [at?_append_of_eq_some hnode, at?_cons, child?, hentries, Option.bind_some,
      at?_singleton] at hat
    exact fits_definition (ih hnode) hentries hat

/-- A checked place at which an object refers to something refers to it by a text. -/
theorem Covered.asString?_ne_none (hdocument : document.WellFormed)
    (hfits : Fits .schema document) {place : Place} (h : document.Covered place) {node : Members}
    (hat : document.at? place = some (.obj node)) {v : Json} (hv : node.get? "$ref" = some v) :
    v.asString? ≠ none := by
  have htext : Fits (.text (some .uriReference)) v :=
    Fits.schema_obj_iff.1 (h.fits hdocument hfits hat) "$ref" v hv
  have hviolations := violations_eq_nil_iff (p := .root).2 htext
  cases v with
  | str s => simp [asString?]
  | null | bool | num | arr | obj => simp [violations, checkText, wrongType] at hviolations

/-- A visited object is at a checked place if its visit starts at one. -/
theorem Visited.covered {visit : Visit} (h : document.Visited visit)
    (hstarts : ∀ start, document.Start start → document.Covered start) :
    document.Covered visit.place := by
  rcases h with hmem | ⟨ref, p, target, hreach, hp, hat, hmem⟩
  · exact .visit .root rfl hmem
  · exact .visit (hstarts p.place (Or.inr ⟨ref, p, hreach, hp, rfl⟩)) hat hmem

end Json

namespace Transformer

/-- What a run knows of the objects that it visits once its input has been checked. -/
structure Prechecked (t : Transformer) (document : Json) : Prop where
  /-- Every visited object at a place that is checked conforms to the meta-schema. -/
  conforms : ∀ visit, document.Visited visit → document.Covered visit.place →
    Conforms (.obj visit.node)
  /-- If every visit starts at a place that is checked, every visited object is at one. -/
  closed : (∀ start, document.Start start → document.Covered start) →
    ∀ visit, document.Visited visit → document.Covered visit.place
  /-- A run fails at a visited object, and if the reference of this object is no text, the object
      is at a place that is not checked. -/
  failure : ∀ e, (t.run document).result = .error e → ∃ visit, document.Visited visit ∧
    t.dialect.Rejects document visit.node e ∧
    ∀ v, visit.node.get? "$ref" = some v → v.asString? = none → ¬ document.Covered visit.place

/-- **Once its input has been checked, a run visits only objects that conform to the meta-schema**
    wherever the meta-schema asks for a schema, and there it does not fail because a reference is no
    text.  It can do so only where a reference leads to a place that is not checked. -/
theorem prechecked_run {t : Transformer} {document : Json}
    (hvalidator : t.validator = some validate) (hdocument : document.WellFormed)
    (hvalid : validate document = .ok ()) : t.Prechecked document where
  conforms := by
    intro visit hvisited hcovered
    have hfits := (validate_eq_ok_iff.1 hvalid).1
    exact conforms_iff.2 (hcovered.fits hdocument hfits (hvisited.exists_start hdocument).1)
  closed := fun hstarts visit hvisited => hvisited.covered hstarts
  failure := by
    intro e he
    have hfits := (validate_eq_ok_iff.1 hvalid).1
    rcases rejected_or_walk_of_run he with ⟨check, errors, hcheck, herrors, -⟩ | hwalk
    · rw [hvalidator] at hcheck
      cases hcheck
      rw [hvalid] at herrors
      cases herrors
    · obtain ⟨visit, hvisited, hrejects⟩ := Dialect.exists_rejected_of_walk hwalk
      refine ⟨visit, hvisited, hrejects, ?_⟩
      intro v hv htext hcovered
      have hat := (hvisited.exists_start hdocument).1
      exact hcovered.asString?_ne_none hdocument hfits hat hv htext

/-- A document with a reference to a definition, in which a reference leads nowhere. -/
def coveredDocument : Json :=
  .obj [("properties", .obj [("pet", .obj [("$ref", .str "#/definitions/pet")])]),
    ("definitions", .obj [("pet", .obj [("not", .obj [("$ref", .str "#/nowhere")])])])]

theorem prechecked_run_coveredDocument :
    coveredDocument.WellFormed ∧ validate coveredDocument = .ok () ∧
      coveredDocument.Visited ⟨["definitions", "pet", "not"], [("$ref", .str "#/nowhere")]⟩ ∧
      coveredDocument.Covered ["definitions", "pet", "not"] ∧
      ((ofSettings {} Table.builtin (some validate)).run coveredDocument).result
        = .error (.unresolvedRef "#/nowhere" "#/definitions/pet/not") ∧
      (ofSettings {} Table.builtin (some validate)).Prechecked coveredDocument := by
  have hdocument : coveredDocument.WellFormed := by
    simp [coveredDocument, Json.WellFormed, Json.MembersWellFormed, Members.keys]
  have hvalid : validate coveredDocument = .ok () := by decide +kernel
  have hvisit : Visit.mk ["definitions", "pet", "not"] [("$ref", .str "#/nowhere")]
      ∈ (Json.obj [("not", .obj [("$ref", .str "#/nowhere")])]).visits .schema
        ["definitions", "pet"] := List.mem_cons_self
  have hcovered : coveredDocument.Covered ([] ++ ["definitions", "pet"]) :=
    .definition .root rfl rfl List.mem_cons_self
  refine ⟨hdocument, hvalid, ?_, .visit hcovered rfl hvisit, ?_,
    prechecked_run rfl hdocument hvalid⟩
  · refine Or.inr ⟨"#/definitions/pet", ⟨["definitions", "pet"]⟩, _, .root ?_, ?_, rfl, hvisit⟩
    · decide +kernel
    · decide +kernel
  · exact Trace.result_eq_error_iff.2 (by decide +kernel)

/-- A document with a reference into `$defs`. -/
def defsDocument : Json :=
  .obj [("$ref", .str "#/$defs/a"), ("$defs", .obj [("a", .obj [("$ref", .num (.int 1))])])]

/-- A document with a reference into the definitions of a default. -/
def defaultDocument : Json :=
  .obj [("$ref", .str "#/default/definitions/a"),
    ("default", .obj [("definitions", .obj [("a", .obj [("$ref", .num (.int 1))])])])]

/-- A run of a schema that has been checked may visit an entry of definitions that does not conform
    to the meta-schema, and fail because its reference is no text. -/
theorem not_conforms_defsDocument :
    (validate defsDocument = .ok () ∧
      defsDocument.Visited ⟨["$defs", "a"], [("$ref", .num (.int 1))]⟩ ∧
      ((ofSettings {} Table.builtin (some validate)).run defsDocument).result
        = .error (.unresolvedRef "1" "#/$defs/a")) ∧
    (validate defaultDocument = .ok () ∧
      defaultDocument.Visited ⟨["default", "definitions", "a"], [("$ref", .num (.int 1))]⟩ ∧
      ((ofSettings {} Table.builtin (some validate)).run defaultDocument).result
        = .error (.unresolvedRef "1" "#/default/definitions/a")) ∧
    ¬ Conforms (.obj [("$ref", .num (.int 1))]) := by
  refine ⟨⟨by decide +kernel, ?_, ?_⟩, ⟨by decide +kernel, ?_, ?_⟩, by decide +kernel⟩
  · exact Or.inr ⟨"#/$defs/a", ⟨["$defs", "a"]⟩, _, .root (by decide +kernel), by decide +kernel,
      rfl, List.mem_cons_self⟩
  · exact Trace.result_eq_error_iff.2 (by decide +kernel)
  · exact Or.inr ⟨"#/default/definitions/a", ⟨["default", "definitions", "a"]⟩, _,
      .root (by decide +kernel), by decide +kernel, rfl, List.mem_cons_self⟩
  · exact Trace.result_eq_error_iff.2 (by decide +kernel)

end Transformer

end Relayout
