/-
  Relayout/Proofs/Draft07/Revalidation.lean
  =========================================
  **Validating what a run makes of a valid schema.**

  What a walk leaves of a value fits whatever the value did (`Yields.fits`): claimed members
  are no keywords, and the layouts and labels that are added are schemas without keywords, so they
  may stand even where every member has to be a schema.  A run then gives the root an identity, and
  this is the one thing that a validator can object to: an identity that is relative, as the one
  given by default is, is no base for a document (`Transformer.validate_run`).
-/
import Relayout.Migration.Transformer
import Relayout.Proofs.Draft07.Faults
import Relayout.Proofs.Draft07.Fits
import Relayout.Proofs.Migration.Identity

namespace Relayout

open Draft07

namespace Draft07

/-- A string is no schema. -/
theorem Fits.ne_str {v : Json} (h : Fits .schema v) (s : String) : v ≠ .str s := by
  rintro rfl
  simp [Fits.schema_iff] at h

/-- An object with keys of layouts only is a schema without keywords. -/
theorem fits_schema_of_inert {ms : Members} (h : (Json.obj ms).shape.Inert) :
    Fits .schema (.obj ms) := by
  have hanything : ∀ key ∈ LayoutNode.keys, expectation key = .anything := by decide
  refine .schema (fun key v hv => ?_)
  rw [hanything key (h _ rfl (List.mem_map_of_mem (Members.mem_of_get?_eq_some hv)))]
  exact .anything v

end Draft07

namespace Dialect

variable {d : Dialect}

/-- Nothing is made of strings. -/
theorem eq_of_yields_strings {xs ys : List Json} (h : List.Forall₂ d.Yields xs ys)
    (hxs : ∀ x ∈ xs, ∃ s, x = .str s) : ys = xs := by
  induction h with
  | nil => rfl
  | cons hhead _ ih =>
    obtain ⟨⟨s, rfl⟩, hrest⟩ := List.forall_mem_cons.1 hxs
    cases hhead
    rw [ih hrest]

theorem Yields.eq_of_areNames {v w : Json} (h : d.Yields v w) (hv : AreNames v) : w = v := by
  obtain ⟨xs, rfl, hstrings, -⟩ := hv
  cases h with
  | arr hxs => rw [eq_of_yields_strings hxs hstrings]

/-- What is added to an object in which no member is a string is a schema. -/
theorem Gained.fits_schema {ms : Members} (hms : ∀ m ∈ ms, ∀ s, m.2 ≠ .str s)
    {n : String × Json} (h : d.Gained ms n) : Fits .schema n.2 := by
  rcases h.2 with ⟨layout, hlayout, rfl⟩ | ⟨label, rfl⟩
  · obtain ⟨node, hdrawn, hfinal⟩ := Table.drawnFrom_of_layout? hlayout
    rcases LayoutNode.of_finalize_eq_some hfinal with ⟨comp, hcomp, rfl⟩ | rfl
    · -- a component comes from a text, and there is none
      obtain ⟨key, text, hget⟩ := hdrawn.comp (by simp [hcomp])
      exact absurd rfl (hms _ (Members.mem_of_get?_eq_some hget) text)
    · exact fits_schema_of_inert (inert_toJson_layout (.node node))
  · exact fits_schema_of_inert (inert_toJson_oneOfLayout ⟨label⟩)

/-- What asks for no schema is satisfied by what a walk leaves. -/
theorem Yields.fits_plain {v w : Json} (h : d.Yields v w) {E : Expectation}
    (hE : E.isPlain = true) (hv : violations E .root v = []) : violations E .root w = [] := by
  cases h with
  | null | bool | num | str => exact hv
  | @arr xs ys hxs =>
    have hstrings (hxsStrings : ∀ x ∈ xs, ∃ s, x = .str s) : Json.arr ys = .arr xs :=
      congrArg Json.arr (eq_of_yields_strings hxs hxsStrings)
    cases E with
    | schema | schemas | schemaOrSchemas | schemaMap | patternMap | dependencyMap => cases hE
    | anything | list => rfl
    | text | flag | amount | count => cases hv
    | names =>
      rw [violations, checkNames_eq_nil_iff] at hv ⊢
      obtain ⟨_, ⟨⟩, hnames, -⟩ := id hv
      rwa [hstrings hnames]
    | typeNames => rwa [hstrings (exists_str_of_checkTypeNames hv)]
  | kept | visited =>
    cases E with
    | schema | schemas | schemaOrSchemas | schemaMap | patternMap | dependencyMap => cases hE
    | anything => rfl
    | text | flag | amount | count | list | names | typeNames => cases hv

theorem Gained.accepts_key {ms : Members} {n : String × Json} (h : d.Gained ms n) :
    Format.regex.accepts n.1 = true := by
  have hkeys : ∀ key ∈ ["layout", "oneOfLayout"], Format.regex.accepts key = true := by
    decide +kernel
  exact hkeys n.1 h.key_mem

/-- Members that all have to be schemas are left as schemas. -/
theorem fits_entries {ms ns : Members} (h : d.Yields (.obj ms) (.obj ns))
    (hms : ∀ m ∈ ms, ∀ s, m.2 ≠ .str s)
    (ih : ∀ m ∈ ms, ∀ {w : Json}, d.Yields m.2 w → Fits .schema w) :
    ∀ n ∈ ns, Fits .schema n.2 := by
  intro n hn
  rcases h.mem_cases hn with ⟨a, ha, hyields⟩ | hgained
  · exact ih _ ha hyields
  · exact hgained.fits_schema hms

/-- What a walk leaves of a value fits whatever the value did. -/
theorem Yields.fits {v w : Json} (h : d.Yields v w) {E : Expectation} (hv : Fits E v) :
    Fits E w := by
  induction hv generalizing w with
  | @schema ms _ ih =>
    obtain ⟨ns, rfl⟩ := h.exists_obj
    refine .schema (fun key b hb => ?_)
    rcases h.get?_cases hb with ⟨a, ha, hyields⟩ | hgained
    · exact ih key a ha hyields
    · have hfree : ∀ key ∈ ["layout", "oneOfLayout"], expectation key = .anything := by decide
      rw [hfree key hgained.key_mem]
      exact .anything b
  | truth b =>
    cases h
    exact .truth b
  | schemas hne _ ih =>
    cases h with
    | arr hxs =>
      refine .schemas ?_ (fun y hy => ?_)
      · rintro rfl
        exact hne (List.forall₂_nil_right_iff.1 hxs)
      · obtain ⟨x, hx, hyields⟩ := exists_of_forall₂ hxs hy
        exact ih x hx hyields
  | oneSchema _ ih => exact .oneSchema (ih h)
  | moreSchemas _ ih => exact .moreSchemas (ih h)
  | @schemaMap ms hms ih =>
    obtain ⟨ns, rfl⟩ := h.exists_obj
    exact .schemaMap (fits_entries h (fun m hm => (hms m hm).ne_str) ih)
  | @patternMap ms hms hkeys ih =>
    obtain ⟨ns, rfl⟩ := h.exists_obj
    refine .patternMap (fits_entries h (fun m hm => (hms m hm).ne_str) ih) (fun key hkey => ?_)
    obtain ⟨n, hn, rfl⟩ := List.mem_map.1 hkey
    rcases h.mem_cases hn with ⟨a, ha, -⟩ | hgained
    · exact hkeys n.1 (List.mem_map.2 ⟨_, ha, rfl⟩)
    · exact hgained.accepts_key
  | @dependencyMap ms hms ih =>
    obtain ⟨ns, rfl⟩ := h.exists_obj
    have hstrings : ∀ m ∈ ms, ∀ s, m.2 ≠ .str s := by
      intro m hm s hs
      have hnot : ¬ AreNames m.2 := by
        rintro ⟨xs, hxs, -⟩
        rw [hs] at hxs
        cases hxs
      exact (hms m hm hnot).ne_str s hs
    refine .dependencyMap (fun n hn hnot => ?_)
    rcases h.mem_cases hn with ⟨a, ha, hyields⟩ | hgained
    · refine ih _ ha (fun hnames => hnot ?_) hyields
      rwa [hyields.eq_of_areNames hnames]
    · exact hgained.fits_schema hstrings
  | plain hE hviolations => exact .plain hE (h.fits_plain hE hviolations)

end Dialect

/-! ### Identities -/

namespace Draft07

/-- Why a document that conforms is rejected. -/
theorem validate_eq_error {document : Json} (hdocument : Fits .schema document)
    {cause : CompilationError} (h : compilationError? document = some cause) :
    validate document = .error [cause.message] := by
  have hviolations : violations .schema .root document = [] := violations_eq_nil_iff.2 hdocument
  rw [validate, hviolations, h]

theorem compilationError?_eq_none_iff {document : Json} :
    compilationError? document = none ↔
      ∃ base, documentBase document = .ok base ∧ identityFault? base document = none ∧
        fault? base .schema .root document = none := by
  rw [compilationError?]
  cases documentBase document with
  | error e => simp
  | ok base =>
    simp only [Except.ok.injEq, exists_eq_left']
    cases identityFault? base document <;> simp

/-- A schema that is given the default identity still conforms. -/
theorem fits_schema_stamped {ms : Members} (h : Fits .schema (.obj ms)) :
    Fits .schema (.obj (ms ++ [("$id", .str defaultRootId)])) := by
  rw [Fits.schema_obj_iff] at h ⊢
  intro key v hv
  rw [Members.get?_append] at hv
  cases hms : ms.get? key with
  | some w =>
    rw [hms] at hv
    cases hv
    exact h key _ hms
  | none =>
    rw [hms, Option.none_or] at hv
    obtain ⟨rfl, rfl⟩ : "$id" = key ∧ Json.str defaultRootId = v := by
      simpa [Members.get?] using hv
    exact .plain rfl (by decide)

/-- The default identity is no base. -/
theorem compilationError?_stamped {ms : Members} (h : "$id" ∉ ms.keys) :
    compilationError? (.obj (ms ++ [("$id", .str defaultRootId)]))
      = some (.url .relativeWithoutBase) := by
  have hid : identity? (ms ++ [("$id", .str defaultRootId)]) = some defaultRootId := by
    rw [identity?, Members.get?_append, (Members.get?_eq_none_iff ms "$id").2 h]
    rfl
  have hbase : documentBase (.obj (ms ++ [("$id", .str defaultRootId)]))
      = .error .relativeWithoutBase := by
    rw [documentBase, Json.asMembers?, Option.bind_some, hid]
    decide
  rw [compilationError?, hbase]

end Draft07

theorem Dialect.Yields.documentBase_eq {d : Dialect} {v w : Json} (h : d.Yields v w) :
    documentBase w = documentBase v := by
  cases v with
  | obj ms =>
    obtain ⟨ns, rfl⟩ := h.exists_obj
    have hid : identity? ns = identity? ms := h.text?_eq (by decide) (by decide)
    rw [documentBase, documentBase, Json.asMembers?, Json.asMembers?, Option.bind_some,
      Option.bind_some, hid]
  | null | bool | num | str | arr =>
    cases h
    rfl

/-- A walk neither gives nor takes an identity. -/
theorem Dialect.Yields.id_mem_iff {d : Dialect} {ms ns : Members}
    (h : d.Yields (.obj ms) (.obj ns)) : "$id" ∈ ns.keys ↔ "$id" ∈ ms.keys := by
  rw [← Members.has_iff_mem_keys, ← Members.has_iff_mem_keys, h.has_eq (by decide) (by decide)]

/-- What a walk leaves of a schema that can be used can be used. -/
theorem Dialect.Yields.validate_eq_ok {d : Dialect} {v w : Json} (h : d.Yields v w)
    (hv : validate v = .ok ()) : validate w = .ok () := by
  rw [validate_eq_ok_iff, compilationError?_eq_none_iff] at hv ⊢
  obtain ⟨hfits, base, hbase, hidentities, hfaults⟩ := hv
  exact ⟨h.fits hfits, base, h.documentBase_eq.trans hbase, h.identityFault?_eq_none hidentities,
    h.fault?_eq_none hfaults⟩

namespace Transformer

/-- **What a run with the default settings makes of a valid schema is valid**, if the root has an
    identity or is no object.  A root without one is given one that is relative, and the result
    conforms to the meta-schema but cannot be used: this is the only thing wrong with it. -/
theorem validate_run {s : Json} {validator : Option Validator} {m : Migration}
    (hs : validate s = .ok ())
    (h : ((ofSettings {} Table.builtin validator).run s).result = .ok m) :
    ((∀ root, s = .obj root → "$id" ∈ Members.keys root) → validate m.schema = .ok ()) ∧
      ∀ root, s = .obj root → "$id" ∉ Members.keys root →
        Conforms m.schema ∧
          validate m.schema = .error [(CompilationError.url .relativeWithoutBase).message] := by
  obtain ⟨schema, hwalk, hstamped⟩ := exists_walk_of_run h
  have hyields := Dialect.yields_walk hwalk
  have hvalid : validate schema = .ok () := hyields.validate_eq_ok hs
  obtain ⟨hgiven, hkept⟩ := schema.stamped_cases ({} : Settings).rootId
  constructor
  · intro hroot
    have hsame : schema.stamped ({} : Settings).rootId = schema := by
      refine hkept (fun ns hns => ?_)
      subst hns
      cases s with
      | obj root => exact hyields.id_mem_iff.2 (hroot root rfl)
      | null | bool | num | str | arr => cases hyields
    have hschema : m.schema = schema := hstamped.trans hsame
    rw [hschema]
    exact hvalid
  · rintro root rfl hnone
    obtain ⟨ns, rfl⟩ := hyields.exists_obj
    have hfresh : "$id" ∉ Members.keys ns := fun hmem => hnone (hyields.id_mem_iff.1 hmem)
    have hschema : m.schema = .obj (ns ++ [("$id", .str defaultRootId)]) :=
      hstamped.trans (hgiven ns rfl hfresh)
    have hfits := fits_schema_stamped (validate_eq_ok_iff.1 hvalid).1
    rw [hschema]
    exact ⟨conforms_iff.2 hfits, validate_eq_error hfits (compilationError?_stamped hfresh)⟩

/-- A schema with an identity and a reference to a definition with extensions. -/
def identifiedSchema : Json :=
  .obj [("$id", .str "http://example.com/form"),
    ("properties", .obj [("pet", .obj [("$ref", .str "#/definitions/pet")])]),
    ("definitions", .obj [("pet", .obj [("x-display", .str "card"), ("x-if", .str "form.a")])])]

/-- What it is migrated to. -/
def identifiedMigration : Migration :=
  { schema := .obj [("$id", .str "http://example.com/form"),
      ("properties", .obj [("pet", .obj [("$ref", .str "#/definitions/pet")])]),
      ("definitions", .obj [("pet", .obj [("layout", .obj [("comp", .str "card"),
        ("cond", .obj [("expr", .str "form.a"), ("type", .str "js-expr")])])])])]
    resolved := ["#/definitions/pet"] }

theorem validate_run_identifiedSchema :
    validate identifiedSchema = .ok () ∧
      ((ofSettings {} Table.builtin none).run identifiedSchema).result
        = .ok identifiedMigration ∧
      ((∀ root, identifiedSchema = .obj root → "$id" ∈ Members.keys root) →
        validate identifiedMigration.schema = .ok ()) ∧
      ∀ root, identifiedSchema = .obj root → "$id" ∉ Members.keys root →
        Conforms identifiedMigration.schema ∧
          validate identifiedMigration.schema
            = .error [(CompilationError.url .relativeWithoutBase).message] := by
  have hvalid : validate identifiedSchema = .ok () := by decide +kernel
  have hrun : ((ofSettings {} Table.builtin none).run identifiedSchema).result
      = .ok identifiedMigration := Trace.result_eq_ok_of_toOption (by decide +kernel)
  exact ⟨hvalid, hrun, validate_run hvalid hrun⟩

/-- The empty schema is valid, and what it is migrated to is not. -/
theorem not_validate_run_empty :
    validate (.obj []) = .ok () ∧
      ((ofSettings {} Table.builtin none).run (.obj [])).result
        = .ok ⟨.obj [("$id", .str "_jl")], []⟩ ∧
      validate (.obj [("$id", .str "_jl")]) ≠ .ok () :=
  ⟨by decide +kernel, Trace.result_eq_ok_of_toOption (by decide +kernel), by decide +kernel⟩

end Transformer

end Relayout
