/-
  Relayout/Proofs/Draft07/Fits.lean
  =================================
  **What the meta-schema accepts.**

  `Fits` says what a value has to be, expectation by expectation and with no word of pointers or
  of the order in which violations are reported.  A value has no violations exactly if it fits
  (`violations_eq_nil_iff`), so a value conforms to the meta-schema exactly if it fits as a schema
  (`conforms_iff`).
-/
import Relayout.Proofs.Draft07.Displacement

namespace Relayout.Draft07

/-- Distinct strings. -/
def AreNames (v : Json) : Prop :=
  ∃ xs, v = .arr xs ∧ (∀ x ∈ xs, ∃ s, x = .str s) ∧ allDistinct xs = true

/-- A value is what it is expected to be. -/
inductive Fits : Expectation → Json → Prop where
  /-- The members of a schema are what their keys ask for. -/
  | schema {ms : Members} :
    (∀ key v, ms.get? key = some v → Fits (expectation key) v) → Fits .schema (.obj ms)
  | truth (b : Bool) : Fits .schema (.bool b)
  | schemas {xs : List Json} : xs ≠ [] → (∀ x ∈ xs, Fits .schema x) → Fits .schemas (.arr xs)
  | oneSchema {v : Json} : Fits .schema v → Fits .schemaOrSchemas v
  | moreSchemas {v : Json} : Fits .schemas v → Fits .schemaOrSchemas v
  | schemaMap {ms : Members} : (∀ m ∈ ms, Fits .schema m.2) → Fits .schemaMap (.obj ms)
  | patternMap {ms : Members} : (∀ m ∈ ms, Fits .schema m.2) →
    (∀ key ∈ ms.keys, Format.regex.accepts key = true) → Fits .patternMap (.obj ms)
  /-- A dependency that does not list names is a schema. -/
  | dependencyMap {ms : Members} : (∀ m ∈ ms, ¬ AreNames m.2 → Fits .schema m.2) →
    Fits .dependencyMap (.obj ms)
  /-- What asks for no schema asks for the same at every place. -/
  | plain {E : Expectation} {v : Json} : E.isPlain = true → violations E .root v = [] → Fits E v

namespace Fits

theorem anything (v : Json) : Fits .anything v := .plain rfl (by rw [violations])

theorem schema_iff {v : Json} :
    Fits .schema v ↔ (∃ b, v = .bool b) ∨
      ∃ ms : Members, v = .obj ms ∧ ∀ key w, ms.get? key = some w → Fits (expectation key) w := by
  constructor
  · intro h
    cases h with
    | schema hms => exact Or.inr ⟨_, rfl, hms⟩
    | truth b => exact Or.inl ⟨b, rfl⟩
    | plain hE => cases hE
  · rintro (⟨b, rfl⟩ | ⟨ms, rfl, hms⟩)
    · exact .truth b
    · exact .schema hms

theorem schema_obj_iff {ms : Members} :
    Fits .schema (.obj ms) ↔ ∀ key v, ms.get? key = some v → Fits (expectation key) v := by
  simp [schema_iff]

theorem schemas_iff {v : Json} :
    Fits .schemas v ↔ ∃ xs, v = .arr xs ∧ xs ≠ [] ∧ ∀ x ∈ xs, Fits .schema x := by
  constructor
  · intro h
    cases h with
    | schemas hne hxs => exact ⟨_, rfl, hne, hxs⟩
    | plain hE => cases hE
  · rintro ⟨xs, rfl, hne, hxs⟩
    exact .schemas hne hxs

theorem schemaOrSchemas_iff {v : Json} :
    Fits .schemaOrSchemas v ↔ Fits .schema v ∨ Fits .schemas v := by
  constructor
  · intro h
    cases h with
    | oneSchema hv => exact Or.inl hv
    | moreSchemas hv => exact Or.inr hv
    | plain hE => cases hE
  · rintro (hv | hv)
    · exact .oneSchema hv
    · exact .moreSchemas hv

theorem schemaMap_iff {v : Json} :
    Fits .schemaMap v ↔ ∃ ms : Members, v = .obj ms ∧ ∀ m ∈ ms, Fits .schema m.2 := by
  constructor
  · intro h
    cases h with
    | schemaMap hms => exact ⟨_, rfl, hms⟩
    | plain hE => cases hE
  · rintro ⟨ms, rfl, hms⟩
    exact .schemaMap hms

theorem patternMap_iff {v : Json} :
    Fits .patternMap v ↔ ∃ ms : Members, v = .obj ms ∧ (∀ m ∈ ms, Fits .schema m.2) ∧
      ∀ key ∈ ms.keys, Format.regex.accepts key = true := by
  constructor
  · intro h
    cases h with
    | patternMap hms hkeys => exact ⟨_, rfl, hms, hkeys⟩
    | plain hE => cases hE
  · rintro ⟨ms, rfl, hms, hkeys⟩
    exact .patternMap hms hkeys

theorem dependencyMap_iff {v : Json} :
    Fits .dependencyMap v ↔
      ∃ ms : Members, v = .obj ms ∧ ∀ m ∈ ms, ¬ AreNames m.2 → Fits .schema m.2 := by
  constructor
  · intro h
    cases h with
    | dependencyMap hms => exact ⟨_, rfl, hms⟩
    | plain hE => cases hE
  · rintro ⟨ms, rfl, hms⟩
    exact .dependencyMap hms

end Fits

/-! ### Expectations without schemas -/

theorem checkStrings_eq_nil_iff {p : Pointer} {i : Nat} {xs : List Json} :
    checkStrings p i xs = [] ↔ ∀ x ∈ xs, ∃ s, x = .str s := by
  induction xs generalizing i with
  | nil => simp [checkStrings]
  | cons x xs ih =>
    rw [List.forall_mem_cons, ← ih (i := i + 1)]
    cases x <;> simp [checkStrings, wrongType]

theorem checkNames_eq_nil_iff {p : Pointer} {v : Json} : checkNames p v = [] ↔ AreNames v := by
  cases v with
  | arr xs =>
    rw [checkNames, List.append_eq_nil_iff, checkStrings_eq_nil_iff]
    cases hdistinct : allDistinct xs <;> simp [AreNames, hdistinct]
  | null | bool | num | str | obj => simp [checkNames, wrongType, AreNames]

/-- An array of names of types holds strings. -/
theorem exists_str_of_checkTypeNames {p : Pointer} {xs : List Json}
    (h : checkTypeNames p (.arr xs) = []) : ∀ x ∈ xs, ∃ s, x = .str s := by
  intro x hx
  simp only [checkTypeNames, ite_eq_left_iff, reduceCtorEq, imp_false, not_not,
    Bool.and_eq_true] at h
  have hname := List.all_eq_true.1 h.1.2 x hx
  cases x with
  | str s => exact ⟨s, rfl⟩
  | null | bool | num | arr | obj => cases hname

/-! ### Schemas -/

/-- Nothing is asked of a member whose key is no keyword. -/
theorem expectation_eq_anything {key : String} (h : key ∉ keywords.map Prod.fst) :
    expectation key = .anything := by
  have hnone : keywords.lookup key = none := by
    rw [List.lookup_eq_none_iff]
    intro entry hentry
    rw [bne_iff_ne]
    rintro rfl
    exact h (List.mem_map.2 ⟨entry, hentry, rfl⟩)
  rw [expectation, hnone, Option.getD_none]

/-- A schema without violations is one whose members have none. -/
theorem inKeywordOrder_eq_nil_iff {p : Pointer} {ms : Members} :
    inKeywordOrder (memberViolations p ms) = [] ↔
      ∀ key v, ms.get? key = some v → violations (expectation key) (p.member key) v = [] := by
  rw [inKeywordOrder, List.flatMap_eq_nil_iff]
  constructor
  · intro h key v hv
    by_cases hkey : key ∈ keywords.map Prod.fst
    · obtain ⟨entry, hentry, rfl⟩ := List.mem_map.1 hkey
      simpa [lookup_memberViolations, hv] using h entry hentry
    · rw [expectation_eq_anything hkey, violations]
  · intro h entry _
    rw [lookup_memberViolations]
    cases hv : ms.get? entry.1 with
    | none => rfl
    | some v => exact h entry.1 v hv

theorem orAlternatives_eq_nil_iff {p : Pointer} {v : Json} {inside : List Violation} :
    orAlternatives p v inside = [] ↔ inside = [] := by
  cases inside <;> simp [orAlternatives]

theorem needsItem_eq_nil_iff {p : Pointer} {xs : List Json} : needsItem p xs = [] ↔ xs ≠ [] := by
  cases xs <;> simp [needsItem]

/-! ### What fits has no violations -/

/-- The values of the members are told apart by whether they fit. -/
def Decided (v : Json) : Prop := ∀ E p, violations E p v = [] ↔ Fits E v

theorem elementViolations_eq_nil_iff {p : Pointer} {i : Nat} {xs : List Json}
    (h : ∀ x ∈ xs, Decided x) :
    elementViolations p i xs = [] ↔ ∀ x ∈ xs, Fits .schema x := by
  induction xs generalizing i with
  | nil => simp [elementViolations]
  | cons x xs ih =>
    obtain ⟨hx, hxs⟩ := List.forall_mem_cons.1 h
    rw [elementViolations, List.append_eq_nil_iff, hx, ih hxs, List.forall_mem_cons]

theorem entryViolations_eq_nil_iff {p : Pointer} {ms : Members} (h : ∀ m ∈ ms, Decided m.2) :
    entryViolations p ms = [] ↔ ∀ m ∈ ms, Fits .schema m.2 := by
  induction ms with
  | nil => simp [entryViolations]
  | cons m ms ih =>
    obtain ⟨hm, hms⟩ := List.forall_mem_cons.1 h
    rw [entryViolations, List.append_eq_nil_iff, hm, ih hms, List.forall_mem_cons]

/-- An array is no schema. -/
theorem not_fits_schema_arr (xs : List Json) : ¬ Fits .schema (.arr xs) := by
  intro h
  cases h with
  | plain hE => cases hE

theorem dependencyViolations_eq_nil_iff {p : Pointer} {ms : Members}
    (h : ∀ m ∈ ms, Decided m.2) :
    dependencyViolations p ms = [] ↔ ∀ m ∈ ms, ¬ AreNames m.2 → Fits .schema m.2 := by
  induction ms with
  | nil => simp [dependencyViolations]
  | cons m ms ih =>
    obtain ⟨k, v⟩ := m
    obtain ⟨hv, hms⟩ := List.forall_mem_cons.1 h
    rw [List.forall_mem_cons, ← ih hms]
    cases v with
    | arr xs =>
      rw [dependencyViolations, List.append_eq_nil_iff, orAlternatives_eq_nil_iff,
        checkNames_eq_nil_iff]
      apply and_congr_left'
      exact ⟨fun hnames hnot => absurd hnames hnot,
        fun hschema => by_contra (fun hnot => not_fits_schema_arr xs (hschema hnot))⟩
    | null | bool | num | str | obj =>
      rw [dependencyViolations, List.append_eq_nil_iff, orAlternatives_eq_nil_iff, hv]
      · apply and_congr_left'
        refine ⟨fun hschema _ => hschema, fun hschema => hschema ?_⟩
        rintro ⟨xs, hxs, -⟩
        cases hxs
      · simp

/-- What asks for no schema is decided for every value. -/
theorem violations_eq_nil_iff_of_isPlain {E : Expectation} (hE : E.isPlain = true) (p : Pointer)
    (v : Json) : violations E p v = [] ↔ Fits E v := by
  rw [← Pointer.append_root p, violations_append, List.map_eq_nil_iff]
  constructor
  · exact .plain hE
  · intro h
    cases h with
    | plain _ hviolations => exact hviolations
    | schema | truth | schemas | oneSchema | moreSchemas | schemaMap | patternMap
    | dependencyMap => cases hE

/-- A value has no violations, at whatever place, exactly if it fits. -/
theorem decided (v : Json) : Decided v := by
  induction v using Json.induction_on with
  | null | num | str =>
    intro E p
    cases E with
    | schema => simp [violations, Fits.schema_iff]
    | schemas => simp [violations, wrongType, Fits.schemas_iff]
    | schemaOrSchemas =>
      simp [violations, Fits.schemaOrSchemas_iff, Fits.schema_iff, Fits.schemas_iff]
    | schemaMap => simp [violations, wrongType, Fits.schemaMap_iff]
    | patternMap => simp [violations, wrongType, Fits.patternMap_iff]
    | dependencyMap => simp [violations, wrongType, Fits.dependencyMap_iff]
    | anything | text | flag | amount | count | list | names | typeNames =>
      exact violations_eq_nil_iff_of_isPlain rfl p _
  | bool b =>
    intro E p
    cases E with
    | schema => simp [violations, Fits.schema_iff]
    | schemas => simp [violations, wrongType, Fits.schemas_iff]
    | schemaOrSchemas => simp [violations, Fits.schemaOrSchemas_iff, Fits.schema_iff]
    | schemaMap => simp [violations, wrongType, Fits.schemaMap_iff]
    | patternMap => simp [violations, wrongType, Fits.patternMap_iff]
    | dependencyMap => simp [violations, wrongType, Fits.dependencyMap_iff]
    | anything | text | flag | amount | count | list | names | typeNames =>
      exact violations_eq_nil_iff_of_isPlain rfl p _
  | arr xs ih =>
    intro E p
    cases E with
    | schema => simp [violations, Fits.schema_iff]
    | schemas =>
      rw [violations, List.append_eq_nil_iff, needsItem_eq_nil_iff, elementViolations_eq_nil_iff ih]
      simp [Fits.schemas_iff]
    | schemaOrSchemas =>
      rw [violations, orAlternatives_eq_nil_iff, List.append_eq_nil_iff, needsItem_eq_nil_iff,
        elementViolations_eq_nil_iff ih]
      simp [Fits.schemaOrSchemas_iff, Fits.schema_iff, Fits.schemas_iff]
    | schemaMap => simp [violations, wrongType, Fits.schemaMap_iff]
    | patternMap => simp [violations, wrongType, Fits.patternMap_iff]
    | dependencyMap => simp [violations, wrongType, Fits.dependencyMap_iff]
    | anything | text | flag | amount | count | list | names | typeNames =>
      exact violations_eq_nil_iff_of_isPlain rfl p _
  | obj ms ih =>
    intro E p
    have hschema : inKeywordOrder (memberViolations p ms) = [] ↔ Fits .schema (.obj ms) := by
      rw [inKeywordOrder_eq_nil_iff, Fits.schema_obj_iff]
      refine forall₂_congr (fun key v => forall_congr' (fun hv => ?_))
      exact ih (key, v) (Members.mem_of_get?_eq_some hv) _ _
    cases E with
    | schema => rw [violations, hschema]
    | schemas => simp [violations, wrongType, Fits.schemas_iff]
    | schemaOrSchemas =>
      rw [violations, orAlternatives_eq_nil_iff, hschema]
      simp [Fits.schemaOrSchemas_iff, Fits.schemas_iff]
    | schemaMap =>
      rw [violations, entryViolations_eq_nil_iff ih]
      simp [Fits.schemaMap_iff]
    | patternMap =>
      rw [violations, List.append_eq_nil_iff, entryViolations_eq_nil_iff ih, checkPatternKeys,
        List.flatMap_eq_nil_iff]
      simp [Fits.patternMap_iff]
    | dependencyMap =>
      rw [violations, dependencyViolations_eq_nil_iff ih]
      simp [Fits.dependencyMap_iff]
    | anything | text | flag | amount | count | list | names | typeNames =>
      exact violations_eq_nil_iff_of_isPlain rfl p _

theorem violations_eq_nil_iff {E : Expectation} {p : Pointer} {v : Json} :
    violations E p v = [] ↔ Fits E v := decided v E p

/-- A value conforms to the meta-schema exactly if it fits as a schema. -/
theorem conforms_iff {v : Json} : Conforms v ↔ Fits .schema v := violations_eq_nil_iff

/-- A document is accepted if it fits as a schema and can be used as one. -/
theorem validate_eq_ok_iff {document : Json} :
    validate document = .ok () ↔ Fits .schema document ∧ compilationError? document = none := by
  have hviolations : violations .schema .root document = [] ↔ Fits .schema document :=
    violations_eq_nil_iff
  rw [← hviolations, validate]
  cases violations .schema .root document with
  | nil => cases compilationError? document <;> simp
  | cons => simp

end Relayout.Draft07
