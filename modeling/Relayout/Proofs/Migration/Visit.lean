/-
  Relayout/Proofs/Migration/Visit.lean
  ====================================
  **The objects that a walk visits.**

  `Json.visits` lists the objects that a walk visits as schemas, in the order in which
  their own references are followed: below the keywords first, in the fixed order of
  keywords and in document order below each, and then the object itself.  It knows nothing
  of rules, references already met or errors.

  The references that the steps of a visit follow are those that the visited objects carry,
  in this order (`filterMap_ref?_survey`).  An object at a place that is treated as a schema
  is visited there (`mem_visits_of_below`).
-/
import Relayout.Migration.Resolve
import Relayout.Proofs.Migration.Treatment

namespace Relayout

/-- An object that is visited as a schema, and its place. -/
structure Visit where
  place : Place
  node : Members
deriving Repr

/-- The reference that a visited object carries. -/
def Visit.ref? (visit : Visit) : Option String :=
  (visit.node.get? "$ref").bind Json.asString?

/-- The reference that a step follows. -/
def Step.ref? : Step → Option String
  | .follow ref _ => some ref
  | .note _ | .fail _ => none

namespace Json

open Dialect (inTraversalOrder)

mutual

/-- The objects visited when a value in a role is, at a place. -/
def visits : Role → Place → Json → List Visit
  | .schema, place, .obj ms => inTraversalOrder (visitsMembers place ms) ++ [⟨place, ms⟩]
  | .schemaOrList, place, .obj ms => inTraversalOrder (visitsMembers place ms) ++ [⟨place, ms⟩]
  | .schemaMap, place, .obj ms => visitsEntries place ms
  | .schemaList, place, .arr xs => visitsElements place 0 xs
  | .schemaOrList, place, .arr xs => visitsElements place 0 xs
  | .labelledList, place, .arr xs => visitsElements place 0 xs
  | _, _, _ => []

/-- The objects visited under each keyword of a schema. -/
def visitsMembers (place : Place) : Members → List (String × List Visit)
  | [] => []
  | (k, v) :: ms => (k, visits (Role.ofKeyword k) (place ++ [k]) v) :: visitsMembers place ms

/-- The objects visited in members whose values are schemas. -/
def visitsEntries (place : Place) : Members → List Visit
  | [] => []
  | (k, v) :: ms => visits .schema (place ++ [k]) v ++ visitsEntries place ms

/-- The objects visited in elements that are schemas, from an index on. -/
def visitsElements (place : Place) : Nat → List Json → List Visit
  | _, [] => []
  | i, x :: xs => visits .schema (place ++ [toString i]) x ++ visitsElements place (i + 1) xs

end

end Json

namespace Dialect

/-! ### The order of keywords -/

theorem filterMap_inTraversalOrder {α β : Type} (f : α → Option β)
    (found : List (String × List α)) :
    (inTraversalOrder found).filterMap f
      = inTraversalOrder (found.map (fun e => (e.1, e.2.filterMap f))) := by
  have hlookup (keyword : String) :
      ((found.map (fun e => (e.1, e.2.filterMap f))).lookup keyword).getD []
        = ((found.lookup keyword).getD []).filterMap f := by
    induction found with
    | nil => rfl
    | cons e found ih =>
      obtain ⟨k, xs⟩ := e
      cases hk : keyword == k <;> simp [List.lookup_cons, hk, ih]
  simp only [inTraversalOrder, List.filterMap_flatMap, hlookup]

theorem mem_inTraversalOrder {α : Type} {x : α} {found : List (String × List α)}
    (h : x ∈ inTraversalOrder found) : ∃ e ∈ found, x ∈ e.2 := by
  simp only [inTraversalOrder, List.mem_flatMap] at h
  obtain ⟨keyword, -, hx⟩ := h
  cases hlookup : found.lookup keyword with
  | none => simp [hlookup] at hx
  | some xs =>
    rw [hlookup, Option.getD_some] at hx
    obtain ⟨before, after, hfound, -⟩ := List.lookup_eq_some_iff.1 hlookup
    exact ⟨(keyword, xs), by simp [hfound], hx⟩

/-! ### References followed -/

theorem filterMap_ref?_ruleSteps (d : Dialect) (p : Pointer) (node : Members) :
    (d.ruleSteps p node).filterMap Step.ref? = [] := by
  rw [ruleSteps, List.filterMap_append, List.filterMap_map, List.append_eq_nil_iff]
  constructor
  · simp [Function.comp_def, Step.ref?]
  · cases (d.mapping p.text node).result <;> simp [Step.ref?]

theorem filterMap_ref?_refSteps (p : Pointer) (place : Place) (node : Members) :
    (refSteps p node).filterMap Step.ref? = [Visit.mk place node].filterMap Visit.ref? := by
  unfold refSteps
  cases h : node.get? "$ref" with
  | none => simp [Visit.ref?, h]
  | some v => cases v <;> simp [Visit.ref?, h, Json.asString?, Step.ref?]

theorem filterMap_ref?_allLabelSteps (p : Pointer) (i : Nat) (xs : List Json) :
    (allLabelSteps p i xs).filterMap Step.ref? = [] := by
  induction xs generalizing i with
  | nil => rfl
  | cons x xs ih =>
    rw [allLabelSteps, List.filterMap_append, ih, List.append_nil]
    cases x with
    | obj element =>
      unfold labelSteps
      cases h : labelling element <;> simp [h, Step.ref?]
    | null | bool | num | str | arr => rfl

mutual

/-- The references followed are those that the visited objects carry, in order. -/
theorem filterMap_ref?_survey (d : Dialect) (p : Pointer) (place : Place) :
    ∀ (role : Role) (v : Json),
      (d.survey role p v).filterMap Step.ref? = (v.visits role place).filterMap Visit.ref?
  | role, .obj ms => by
    have hmembers := filterMap_ref?_surveyMembers d p place ms
    have hself := filterMap_ref?_refSteps p place ms
    cases role with
    | schema =>
      simp only [survey, Json.visits, List.filterMap_append, filterMap_ref?_ruleSteps, hself,
        filterMap_inTraversalOrder, hmembers, List.nil_append]
    | schemaOrList =>
      simp only [survey, Json.visits, List.filterMap_append, filterMap_ref?_ruleSteps, hself,
        filterMap_inTraversalOrder, hmembers, List.nil_append]
    | schemaMap => exact filterMap_ref?_surveyEntries d p place ms
    | schemaList | labelledList | verbatim => rfl
  | role, .arr xs => by
    have helements := filterMap_ref?_surveyElements d p place 0 xs
    cases role with
    | schemaList => exact helements
    | schemaOrList => exact helements
    | labelledList =>
      simp only [survey, Json.visits, List.filterMap_append, filterMap_ref?_allLabelSteps,
        List.append_nil, helements]
    | schema | schemaMap | verbatim => rfl
  | role, .null | role, .bool _ | role, .num _ | role, .str _ => by cases role <;> rfl

theorem filterMap_ref?_surveyMembers (d : Dialect) (p : Pointer) (place : Place) :
    ∀ ms : Members,
      (d.surveyMembers p ms).map (fun e => (e.1, e.2.filterMap Step.ref?))
        = (Json.visitsMembers place ms).map (fun e => (e.1, e.2.filterMap Visit.ref?))
  | [] => rfl
  | (k, v) :: ms => by
    simp only [surveyMembers, Json.visitsMembers, List.map_cons,
      filterMap_ref?_survey d (p.push k) (place ++ [k]) (Role.ofKeyword k) v,
      filterMap_ref?_surveyMembers d p place ms]

theorem filterMap_ref?_surveyEntries (d : Dialect) (p : Pointer) (place : Place) :
    ∀ ms : Members,
      (d.surveyEntries p ms).filterMap Step.ref?
        = (Json.visitsEntries place ms).filterMap Visit.ref?
  | [] => rfl
  | (k, v) :: ms => by
    simp only [surveyEntries, Json.visitsEntries, List.filterMap_append,
      filterMap_ref?_survey d (p.member k) (place ++ [k]) .schema v,
      filterMap_ref?_surveyEntries d p place ms]

theorem filterMap_ref?_surveyElements (d : Dialect) (p : Pointer) (place : Place) :
    ∀ (i : Nat) (xs : List Json),
      (d.surveyElements p i xs).filterMap Step.ref?
        = (Json.visitsElements place i xs).filterMap Visit.ref?
  | _, [] => rfl
  | i, x :: xs => by
    simp only [surveyElements, Json.visitsElements, List.filterMap_append,
      filterMap_ref?_survey d (p.element i) (place ++ [toString i]) .schema x,
      filterMap_ref?_surveyElements d p place (i + 1) xs]

end

end Dialect

/-! ### Visited places -/

/-- The role whose visits are those of a treatment. -/
def Treatment.role : Treatment → Role
  | .inRole role => role
  | .labelled => .schema

namespace Json

open Dialect (inTraversalOrder)

theorem visits_verbatim (place : Place) (v : Json) : v.visits .verbatim place = [] := by
  cases v <;> rfl

theorem mem_traversalOrder {keyword : String} (h : Role.ofKeyword keyword ≠ .verbatim) :
    keyword ∈ traversalOrder := by
  unfold Role.ofKeyword at h
  split at h <;> first | decide | exact absurd rfl h

theorem lookup_visitsMembers (place : Place) (ms : Members) (keyword : String) :
    (visitsMembers place ms).lookup keyword
      = (ms.get? keyword).map (visits (Role.ofKeyword keyword) (place ++ [keyword])) :=
  Members.lookup_eq_map_get? (visitsMembers place)
    (fun key => visits (Role.ofKeyword key) (place ++ [key])) rfl (fun _ _ _ => rfl) ms keyword

/-- What is visited under a keyword is visited with the schema. -/
theorem mem_inTraversalOrder_visitsMembers {place : Place} {ms : Members} {keyword : String}
    {v : Json} (hget : ms.get? keyword = some v) {visit : Visit}
    (h : visit ∈ v.visits (Role.ofKeyword keyword) (place ++ [keyword])) :
    visit ∈ inTraversalOrder (visitsMembers place ms) := by
  have hrole : Role.ofKeyword keyword ≠ .verbatim := by
    intro hverbatim
    rw [hverbatim, visits_verbatim] at h
    cases h
  rw [inTraversalOrder, List.mem_flatMap]
  refine ⟨keyword, mem_traversalOrder hrole, ?_⟩
  simpa [lookup_visitsMembers, hget] using h

theorem mem_visitsEntries {place : Place} {ms : Members} {key : String} {v : Json}
    (hget : ms.get? key = some v) {visit : Visit}
    (h : visit ∈ v.visits .schema (place ++ [key])) : visit ∈ visitsEntries place ms := by
  induction ms with
  | nil => cases hget
  | cons m ms ih =>
    obtain ⟨k, w⟩ := m
    rw [visitsEntries, List.mem_append]
    by_cases hk : k = key
    · subst hk
      obtain rfl : w = v := by simpa [Members.get?] using hget
      exact Or.inl h
    · exact Or.inr (ih (by simpa [Members.get?, hk] using hget))

theorem mem_visitsElements {place : Place} {xs : List Json} {i j : Nat} {x : Json}
    (hget : xs[j]? = some x) {visit : Visit}
    (h : visit ∈ x.visits .schema (place ++ [toString (i + j)])) :
    visit ∈ visitsElements place i xs := by
  induction xs generalizing i j with
  | nil => cases hget
  | cons y ys ih =>
    rw [visitsElements, List.mem_append]
    cases j with
    | zero =>
      obtain rfl : y = x := by simpa using hget
      exact Or.inl h
    | succ j =>
      have hindex : i + (j + 1) = i + 1 + j := by omega
      rw [hindex] at h
      exact Or.inr (ih (by simpa using hget) h)

/-- An object at a place that is treated as a schema is visited there. -/
theorem mem_visits_of_below {t : Treatment} {v : Json} {ms : Members} (start : Place)
    {place : Place} (hat : v.at? place = some (.obj ms)) (h : (t.below v place).visits = true) :
    ⟨start ++ place, ms⟩ ∈ v.visits t.role start := by
  induction place generalizing t v start with
  | nil =>
    cases hat
    have hself : ⟨start, ms⟩ ∈ inTraversalOrder (visitsMembers start ms) ++ [⟨start, ms⟩] :=
      List.mem_append_right _ List.mem_cons_self
    rw [List.append_nil]
    rcases Treatment.of_visits_eq_true h with rfl | rfl | rfl <;> exact hself
  | cons name place ih =>
    rw [at?_cons, Option.bind_eq_some_iff] at hat
    obtain ⟨w, hchild, hat⟩ := hat
    simp only [Treatment.below, hchild] at h
    have hw := ih (start ++ [name]) hat h
    rw [List.append_assoc, List.singleton_append] at hw
    cases v with
    | null | bool | num | str => cases hchild
    | obj es =>
      cases ht : t.visits with
      | true =>
        rw [Treatment.child_of_visits ht] at hw
        have hmem := List.mem_append_left [⟨start, es⟩]
          (mem_inTraversalOrder_visitsMembers hchild hw)
        rcases Treatment.of_visits_eq_true ht with rfl | rfl | rfl <;> exact hmem
      | false =>
        rcases Treatment.of_visits_eq_false ht with rfl | rfl | rfl | rfl
        · exact mem_visitsEntries hchild hw
        · simp [Treatment.child, Treatment.role, visits_verbatim] at hw
        · simp [Treatment.child, Treatment.role, visits_verbatim] at hw
        · simp [Treatment.child, Treatment.role, visits_verbatim] at hw
    | arr xs =>
      rw [child?, Option.bind_eq_some_iff] at hchild
      obtain ⟨i, hi, hx⟩ := hchild
      obtain rfl := Pointer.eq_toString_of_index? hi
      have helement (hrole : (t.child (.arr xs) (toString i)).role = .schema) :
          ⟨start ++ toString i :: place, ms⟩ ∈ visitsElements start 0 xs := by
        rw [hrole] at hw
        exact mem_visitsElements hx (by rwa [Nat.zero_add])
      cases t with
      | inRole role =>
        cases role with
        | schemaList | schemaOrList | labelledList => exact helement rfl
        | schema | schemaMap | verbatim =>
          simp [Treatment.child, Treatment.role, visits_verbatim] at hw
      | labelled => simp [Treatment.child, Treatment.role, visits_verbatim] at hw

end Json

end Relayout
