/-
  Relayout/Proofs/Migration/Steps.lean
  ====================================
  **The steps of a visit belong to the objects that are visited.**

  Apart from what is told about labels, a visit applies the rules to each visited object and
  follows the reference of each, and does nothing else (`Dialect.brings_survey`).  So something
  holds of all steps of a visit exactly if it holds of those that each visited object brings
  (`Dialect.forall_survey_iff`).
-/
import Relayout.Proofs.Json.Induction
import Relayout.Proofs.Migration.Visit

namespace Relayout

namespace Dialect

variable (d : Dialect)

/-! ### Parts in order -/

theorem lookup_surveyMembers (p : Pointer) (ms : Members) (keyword : String) :
    (d.surveyMembers p ms).lookup keyword
      = (ms.get? keyword).map (d.survey (Role.ofKeyword keyword) (p.push keyword)) :=
  Members.lookup_eq_map_get? (d.surveyMembers p)
    (fun key => d.survey (Role.ofKeyword key) (p.push key)) rfl (fun _ _ _ => rfl) ms keyword

/-- About labels events are logged, and nothing else is done. -/
theorem exists_note_of_mem_allLabelSteps {p : Pointer} {i : Nat} {xs : List Json} {step : Step}
    (h : step ∈ allLabelSteps p i xs) : ∃ event, step = .note event ∧
      ((∃ path label, event = .attachingLabel path label) ∨
        ∃ path, event = .ambiguousLabel path) := by
  induction xs generalizing i with
  | nil => cases h
  | cons x xs ih =>
    rcases List.mem_append.1 h with hhere | hrest
    · cases x with
      | obj element =>
        rw [labelSteps] at hhere
        split at hhere
        · cases hhere
        · exact ⟨_, List.mem_singleton.1 hhere, Or.inl ⟨_, _, rfl⟩⟩
        · exact ⟨_, List.mem_singleton.1 hhere, Or.inr ⟨_, rfl⟩⟩
      | null | bool | num | str | arr => cases hhere
    · exact ih hrest

/-! ### Steps and visited objects -/

/-- Each step is a note about labels or is brought by one of the visited objects, and none that one
    of them brings is missing. -/
structure Brings (visits : List Visit) (steps : List Step) : Prop where
  origin : ∀ step ∈ steps, (∃ p i xs, step ∈ allLabelSteps p i xs) ∨
    ∃ visit ∈ visits, ∃ p, step ∈ d.ruleSteps p visit.node ++ refSteps p visit.node
  complete : ∀ visit ∈ visits, ∃ p, d.ruleSteps p visit.node ++ refSteps p visit.node ⊆ steps

namespace Brings

variable {d : Dialect} {visits visits' : List Visit} {steps steps' : List Step}

theorem nil : d.Brings [] [] := by
  constructor <;> simp

theorem append (h : d.Brings visits steps) (h' : d.Brings visits' steps') :
    d.Brings (visits ++ visits') (steps ++ steps') := by
  constructor
  · intro step hstep
    rcases List.mem_append.1 hstep with hstep | hstep
    · apply (h.origin step hstep).imp_right
      rintro ⟨visit, hvisit, hmem⟩
      exact ⟨visit, List.mem_append_left _ hvisit, hmem⟩
    · apply (h'.origin step hstep).imp_right
      rintro ⟨visit, hvisit, hmem⟩
      exact ⟨visit, List.mem_append_right _ hvisit, hmem⟩
  · intro visit hvisit
    rcases List.mem_append.1 hvisit with hvisit | hvisit
    · obtain ⟨p, hsubset⟩ := h.complete visit hvisit
      exact ⟨p, List.subset_append_of_subset_left _ hsubset⟩
    · obtain ⟨p, hsubset⟩ := h'.complete visit hvisit
      exact ⟨p, List.subset_append_of_subset_right _ hsubset⟩

theorem labels (h : d.Brings visits steps) (p : Pointer) (i : Nat) (xs : List Json) :
    d.Brings visits (steps ++ allLabelSteps p i xs) := by
  have hlabels : d.Brings [] (allLabelSteps p i xs) := by
    constructor
    · intro step hstep
      exact Or.inl ⟨p, i, xs, hstep⟩
    · simp
  simpa using h.append hlabels

/-- What an object brings itself stands around what is brought under its keywords. -/
theorem around (h : d.Brings visits steps) (p : Pointer) (place : Place) (node : Members) :
    d.Brings (visits ++ [⟨place, node⟩]) (d.ruleSteps p node ++ steps ++ refSteps p node) := by
  constructor
  · intro step hstep
    have hcases : step ∈ steps ∨ step ∈ d.ruleSteps p node ++ refSteps p node := by
      simp only [List.mem_append] at hstep ⊢
      tauto
    rcases hcases with hbelow | hself
    · apply (h.origin step hbelow).imp_right
      rintro ⟨visit, hvisit, hmem⟩
      exact ⟨visit, List.mem_append_left _ hvisit, hmem⟩
    · exact Or.inr ⟨⟨place, node⟩, by simp, p, hself⟩
  · intro visit hvisit
    rcases List.mem_append.1 hvisit with hbelow | hself
    · obtain ⟨q, hsubset⟩ := h.complete visit hbelow
      refine ⟨q, fun step hstep => ?_⟩
      simp [hsubset hstep]
    · obtain rfl := List.mem_singleton.1 hself
      refine ⟨p, fun step hstep => ?_⟩
      simp only [List.mem_append] at hstep ⊢
      tauto

theorem flatMap {keys : List String} {visitsOf : String → List Visit}
    {stepsOf : String → List Step} (h : ∀ key ∈ keys, d.Brings (visitsOf key) (stepsOf key)) :
    d.Brings (keys.flatMap visitsOf) (keys.flatMap stepsOf) := by
  induction keys with
  | nil => exact .nil
  | cons key keys ih =>
    obtain ⟨hkey, hkeys⟩ := List.forall_mem_cons.1 h
    exact hkey.append (ih hkeys)

end Brings

theorem brings_schema {ms : Members} {p : Pointer} {place : Place}
    (hmembers : ∀ m ∈ ms, ∀ role p place, d.Brings (m.2.visits role place) (d.survey role p m.2)) :
    d.Brings (inTraversalOrder (Json.visitsMembers place ms) ++ [⟨place, ms⟩])
      (d.ruleSteps p ms ++ inTraversalOrder (d.surveyMembers p ms) ++ refSteps p ms) := by
  apply Brings.around
  apply Brings.flatMap
  intro keyword _
  rw [lookup_surveyMembers, Json.lookup_visitsMembers]
  cases hget : ms.get? keyword with
  | none => exact .nil
  | some v => exact hmembers _ (Members.mem_of_get?_eq_some hget) _ _ _

theorem brings_surveyEntries {ms : Members} {p : Pointer} {place : Place}
    (hmembers : ∀ m ∈ ms, ∀ role p place, d.Brings (m.2.visits role place) (d.survey role p m.2)) :
    d.Brings (Json.visitsEntries place ms) (d.surveyEntries p ms) := by
  induction ms with
  | nil => exact .nil
  | cons m ms ih =>
    obtain ⟨hm, hms⟩ := List.forall_mem_cons.1 hmembers
    exact (hm _ _ _).append (ih hms)

theorem brings_surveyElements {xs : List Json} {i : Nat} {p : Pointer} {place : Place}
    (helements : ∀ x ∈ xs, ∀ role p place, d.Brings (x.visits role place) (d.survey role p x)) :
    d.Brings (Json.visitsElements place i xs) (d.surveyElements p i xs) := by
  induction xs generalizing i with
  | nil => exact .nil
  | cons x xs ih =>
    obtain ⟨hx, hxs⟩ := List.forall_mem_cons.1 helements
    exact (hx _ _ _).append (ih hxs)

/-- The steps of a visit are those that the visited objects bring, and notes about labels. -/
theorem brings_survey (v : Json) (role : Role) (p : Pointer) (place : Place) :
    d.Brings (v.visits role place) (d.survey role p v) := by
  induction v using Json.induction_on generalizing role p place with
  | null | bool | num | str => cases role <;> exact .nil
  | arr xs ih =>
    have helements : d.Brings (Json.visitsElements place 0 xs) (d.surveyElements p 0 xs) :=
      d.brings_surveyElements ih
    cases role with
    | schemaList => exact helements
    | schemaOrList => exact helements
    | labelledList => exact helements.labels p 0 (d.migrateElements xs)
    | schema | schemaMap | verbatim => exact .nil
  | obj ms ih =>
    cases role with
    | schema => exact d.brings_schema ih
    | schemaOrList => exact d.brings_schema ih
    | schemaMap => exact d.brings_surveyEntries ih
    | schemaList | labelledList | verbatim => exact .nil

/-- Something that holds of all notes about labels holds of all steps of a visit exactly if it
    holds of the steps that each visited object brings. -/
theorem forall_survey_iff {good : Step → Prop} {acceptable : Members → Prop}
    (hlabel : ∀ p i xs, ∀ step ∈ allLabelSteps p i xs, good step)
    (hnode : ∀ p node, (∀ step ∈ d.ruleSteps p node ++ refSteps p node, good step) ↔
      acceptable node)
    (v : Json) (role : Role) (p : Pointer) (place : Place) :
    (∀ step ∈ d.survey role p v, good step) ↔
      ∀ visit ∈ v.visits role place, acceptable visit.node := by
  have hbrings := d.brings_survey v role p place
  constructor
  · intro h visit hvisit
    obtain ⟨q, hsubset⟩ := hbrings.complete visit hvisit
    exact (hnode q visit.node).1 (fun step hstep => h step (hsubset hstep))
  · intro h step hstep
    rcases hbrings.origin step hstep with ⟨q, i, xs, hmem⟩ | ⟨visit, hvisit, q, hmem⟩
    · exact hlabel q i xs step hmem
    · exact (hnode q visit.node).2 (h visit hvisit) step hmem

end Dialect

end Relayout
