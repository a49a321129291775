/-
  Relayout/Proofs/Migration/Surveyed.lean
  =======================================
  **What the survey of the root comes to by keywords alone.**

  `Json.Surveyed` goes down with the survey, by the keywords that hold schemas, the names in maps of
  schemas and the indices in lists of them, and keeps the pointer that the survey builds on the
  way: what the survey does for a value it finds is a part of what it does for the root
  (`Surveyed.survey_infix`), and the objects that it finds as schemas are those that a walk visits
  in the root (`Json.mem_visits_iff_inMainTree`).

  Whether a pointer leads into definitions is asked of one segment after the other, and on such a
  way the question keeps in step with the survey: it skips a segment as a name exactly where the
  survey takes any name (`Surveyed.throughDefinitions_append`).  So whatever the names are, no
  pointer of the survey leads into definitions (`Surveyed.isLazy_ofText?`).
-/
import Relayout.Proofs.Json.Address
import Relayout.Proofs.Json.KeyOrder
import Relayout.Proofs.Migration.Children
import Relayout.Proofs.Migration.Steps

namespace Relayout

/-- The survey of the root comes, by keywords alone, to a value in a role, at the pointer that it
    has built on the way. -/
inductive Json.Surveyed (document : Json) : Role → Pointer → Json → Prop where
  | root : Surveyed document .schema .root document
  | keyword {role : Role} {p : Pointer} {ms : Members} {keyword : String} {v : Json} :
    Surveyed document role p (.obj ms) → (Treatment.inRole role).visits = true →
      keyword ∈ traversalOrder → ms.get? keyword = some v →
      Surveyed document (Role.ofKeyword keyword) (p.push keyword) v
  | entry {p : Pointer} {ms : Members} {name : String} {v : Json} :
    Surveyed document .schemaMap p (.obj ms) → (name, v) ∈ ms →
      Surveyed document .schema (p.member name) v
  | element {role : Role} {p : Pointer} {xs : List Json} {i : Nat} {x : Json} :
    Surveyed document role p (.arr xs) →
      role = .schemaList ∨ role = .schemaOrList ∨ role = .labelledList → xs[i]? = some x →
      Surveyed document .schema (p.element i) x

/-- An object of the main tree: the survey of the root finds it as a schema. -/
def Json.InMainTree (document : Json) (p : Pointer) (node : Members) : Prop :=
  ∃ role, (Treatment.inRole role).visits = true ∧ document.Surveyed role p (.obj node)

/-! ### Keywords and roles on the way -/

theorem isPlain_of_mem_traversalOrder {keyword : String} (h : keyword ∈ traversalOrder) :
    Pointer.IsPlain keyword := by
  have hplain : ∀ keyword ∈ traversalOrder, Pointer.IsPlain keyword := by decide
  exact hplain keyword h

theorem not_definitions_of_mem_traversalOrder {keyword : String} (h : keyword ∈ traversalOrder) :
    ¬ (keyword = "definitions" ∨ keyword = "$defs") := by
  have hnot : ∀ keyword ∈ traversalOrder, ¬ (keyword = "definitions" ∨ keyword = "$defs") := by
    decide
  exact hnot keyword h

theorem Pointer.place_keyword (p : Pointer) {keyword : String} (h : keyword ∈ traversalOrder) :
    (p.push keyword).place = p.place ++ [keyword] := by
  rw [place_push, (isPlain_of_mem_traversalOrder h).2]

theorem Treatment.visits_role (t : Treatment) : (inRole t.role).visits = t.visits := by
  cases t <;> rfl

/-! ### Parts of a survey -/

namespace Dialect

variable (d : Dialect)

theorem survey_of_visits {role : Role} (h : (Treatment.inRole role).visits = true) (p : Pointer)
    (ms : Members) :
    d.survey role p (.obj ms)
      = d.ruleSteps p ms ++ inTraversalOrder (d.surveyMembers p ms) ++ refSteps p ms := by
  cases role with
  | schema | schemaOrList => rfl
  | schemaMap | schemaList | labelledList | verbatim => cases h

theorem infix_inTraversalOrder {α : Type} {found : List (String × List α)} {keyword : String}
    {part : List α} (hkeyword : keyword ∈ traversalOrder) (h : found.lookup keyword = some part) :
    part <:+: inTraversalOrder found := by
  apply List.infix_of_mem_flatten
  exact List.mem_map.2 ⟨keyword, hkeyword, by simp [h]⟩

theorem survey_infix_surveyEntries (p : Pointer) {ms : Members} {name : String} {v : Json}
    (h : (name, v) ∈ ms) : d.survey .schema (p.member name) v <:+: d.surveyEntries p ms := by
  induction ms with
  | nil => cases h
  | cons m ms ih =>
    rcases List.mem_cons.1 h with rfl | hrest
    · exact List.infix_append_of_infix_left List.infix_rfl
    · exact List.infix_append_of_infix_right (ih hrest)

theorem survey_infix_surveyElements (p : Pointer) {xs : List Json} {x : Json} (i : Nat) {j : Nat}
    (h : xs[j]? = some x) :
    d.survey .schema (p.element (i + j)) x <:+: d.surveyElements p i xs := by
  induction xs generalizing i j with
  | nil => cases h
  | cons y ys ih =>
    cases j with
    | zero =>
      obtain rfl : y = x := by simpa using h
      exact List.infix_append_of_infix_left List.infix_rfl
    | succ j =>
      have hindex : i + (j + 1) = i + 1 + j := by omega
      rw [hindex]
      exact List.infix_append_of_infix_right (ih (i + 1) (by simpa using h))

end Dialect

namespace Json

variable {document v : Json} {role : Role} {p : Pointer}

/-- What the survey does for a value that it comes to is a part of what it does for the root. -/
theorem Surveyed.survey_infix (d : Dialect) (h : document.Surveyed role p v) :
    d.survey role p v <:+: d.survey .schema .root document := by
  induction h with
  | root => exact List.infix_rfl
  | @keyword role p ms keyword v _ hvisits hkeyword hget ih =>
    have hlookup := d.lookup_surveyMembers p ms keyword
    rw [hget] at hlookup
    have hpart := Dialect.infix_inTraversalOrder hkeyword hlookup
    rw [d.survey_of_visits hvisits, List.append_assoc] at ih
    exact (List.infix_append_of_infix_right (List.infix_append_of_infix_left hpart)).trans ih
  | entry _ hmem ih => exact (d.survey_infix_surveyEntries _ hmem).trans ih
  | @element role p xs i x _ hrole hx ih =>
    have hpart := d.survey_infix_surveyElements p 0 hx
    rw [Nat.zero_add] at hpart
    rcases hrole with rfl | rfl | rfl
    · exact hpart.trans ih
    · exact hpart.trans ih
    · -- the notes about labels come after the elements
      exact (List.infix_append_of_infix_left hpart).trans ih

/-! ### Pointers of the survey -/

theorem Surveyed.slashFree (h : document.Surveyed role p v) : p.SlashFree := by
  induction h with
  | root => exact Pointer.slashFree_root
  | keyword _ _ hkeyword _ ih => exact ih.push (isPlain_of_mem_traversalOrder hkeyword).1
  | entry _ _ ih => exact ih.member _
  | element _ _ _ ih => exact ih.element _

/-- Below what is surveyed, a place is in definitions if it is so seen from there, where the next
    segment is a name in a map of schemas, and a keyword or an index everywhere else. -/
theorem Surveyed.throughDefinitions_append (h : document.Surveyed role p v) (below : Place) :
    throughDefinitions (p.place ++ below)
      = throughDefinitions (if role = .schemaMap then below.tail else below) := by
  induction h generalizing below with
  | root => rfl
  | @keyword role p _ keyword _ _ hvisits hkeyword _ ih =>
    have hrole : role ≠ .schemaMap := by
      rintro rfl
      cases hvisits
    rw [p.place_keyword hkeyword, List.append_assoc, List.singleton_append, ih, if_neg hrole,
      throughDefinitions_cons, if_neg (not_definitions_of_mem_traversalOrder hkeyword)]
    simp only [← Treatment.ofKeyword_eq_schemaMap_iff]
    split <;> rfl
  | entry _ _ ih =>
    -- the name may be anything, since it is skipped
    rw [Pointer.place_member, List.append_assoc, List.singleton_append, ih]
    rfl
  | @element role p xs i x _ hrole _ ih =>
    have hnot : role ≠ .schemaMap := by
      rintro rfl
      simp at hrole
    rw [Pointer.place_element, List.append_assoc, List.singleton_append, ih, if_neg hnot,
      Treatment.throughDefinitions_index_cons (Pointer.index?_toString i)]
    rfl

/-- No pointer of the survey, read as it is written, leads into definitions. -/
theorem Surveyed.isLazy_ofText? (h : document.Surveyed role p v) :
    (Pointer.ofText? p.text).map Pointer.isLazy = some false := by
  have hplace := h.throughDefinitions_append []
  rw [List.append_nil, ← Pointer.isLazy_eq_throughDefinitions] at hplace
  rw [Pointer.ofText?_text h.slashFree, Option.map_some, hplace]
  split <;> rfl

/-- Below an object of the main tree, a place is in definitions if it is so seen from the object. -/
theorem InMainTree.throughDefinitions_append {node : Members} (h : document.InMainTree p node)
    (below : Place) : throughDefinitions (p.place ++ below) = throughDefinitions below := by
  obtain ⟨role, hvisits, hsurveyed⟩ := h
  have hrole : role ≠ .schemaMap := by
    rintro rfl
    cases hvisits
  rw [hsurveyed.throughDefinitions_append, if_neg hrole]

/-- A property may be named like a keyword for definitions, and have definitions itself. -/
example : throughDefinitions ["properties", "definitions"] = false ∧
    throughDefinitions ["$defs", "properties"] = true ∧
    throughDefinitions ["properties", "definitions", "$defs", "properties"] = true := by decide

/-! ### Visited objects -/

theorem visits_of_visits {role : Role} (h : (Treatment.inRole role).visits = true) (place : Place)
    (ms : Members) : (obj ms).visits role place
      = Dialect.inTraversalOrder (visitsMembers place ms) ++ [⟨place, ms⟩] := by
  cases role with
  | schema | schemaOrList => rfl
  | schemaMap | schemaList | labelledList | verbatim => cases h

/-- What is visited below something surveyed is in the main tree. -/
theorem Surveyed.exists_inMainTree (h : document.Surveyed role p v) {visit : Visit}
    (hvisit : visit ∈ v.visits role p.place) :
    ∃ q, q.place = visit.place ∧ document.InMainTree q visit.node := by
  induction v using Json.induction_on generalizing role p with
  | null | bool | num | str => cases role <;> cases hvisit
  | arr xs ih =>
    have helements (hrole : role = .schemaList ∨ role = .schemaOrList ∨ role = .labelledList)
        (hmem : visit ∈ visitsElements p.place 0 xs) :
        ∃ q, q.place = visit.place ∧ document.InMainTree q visit.node := by
      rw [visitsElements_eq, List.mem_flatMap] at hmem
      obtain ⟨i, -, hmem⟩ := hmem
      cases hx : xs[i]? with
      | none => simp [hx] at hmem
      | some x =>
        rw [hx, Option.map_some, Option.getD_some, Nat.zero_add, ← Pointer.place_element] at hmem
        exact ih x (List.mem_of_getElem? hx) (.element h hrole hx) hmem
    cases role with
    | schemaList | schemaOrList | labelledList => exact helements (by simp) hvisit
    | schema | schemaMap | verbatim => cases hvisit
  | obj ms ih =>
    cases hvisits : (Treatment.inRole role).visits with
    | true =>
      rw [visits_of_visits hvisits, List.mem_append] at hvisit
      rcases hvisit with hbelow | hself
      · obtain ⟨keyword, hkeyword, hmem⟩ := List.mem_flatMap.1 hbelow
        rw [lookup_visitsMembers, ← p.place_keyword hkeyword] at hmem
        cases hget : Members.get? ms keyword with
        | none => simp [hget] at hmem
        | some w =>
          rw [hget, Option.map_some, Option.getD_some] at hmem
          exact ih _ (Members.mem_of_get?_eq_some hget) (.keyword h hvisits hkeyword hget) hmem
      · obtain rfl := List.mem_singleton.1 hself
        exact ⟨p, rfl, role, hvisits, h⟩
    | false =>
      cases role with
      | schemaMap =>
        have hentries : visit ∈ visitsEntries p.place ms := hvisit
        rw [visitsEntries_eq_flatMap, List.mem_flatMap] at hentries
        obtain ⟨m, hm, hmem⟩ := hentries
        rw [← Pointer.place_member] at hmem
        exact ih m hm (.entry h hm) hmem
      | schema | schemaOrList => cases hvisits
      | schemaList | labelledList | verbatim => cases hvisit

section WellFormed

variable (hdocument : document.WellFormed)

include hdocument

theorem Surveyed.leadsTo (h : document.Surveyed role p v) : document.LeadsTo p v := by
  induction h with
  | root => exact .root document
  | keyword _ _ hkeyword hget ih => exact ih.push (isPlain_of_mem_traversalOrder hkeyword) hget
  | entry _ hmem ih =>
    have hnodup := (hdocument.at ih.found).1
    exact ih.member ((Members.get?_eq_some_iff hnodup).2 hmem)
  | element _ _ hx ih => exact ih.element hx

theorem Surveyed.role_below (h : document.Surveyed role p v) :
    ((Treatment.inRole .schema).below document p.place).role = role := by
  induction h with
  | root => rfl
  | @keyword role p ms keyword w hsurveyed hvisits hkeyword hget ih =>
    have hchild : (Json.obj ms).child? keyword = some w := hget
    rw [p.place_keyword hkeyword, Treatment.below_append _ (hsurveyed.leadsTo hdocument).found,
      Treatment.below_singleton _ hchild]
    rw [← ih, Treatment.visits_role] at hvisits
    rw [Treatment.child_of_visits hvisits]
    rfl
  | @entry p ms name w hsurveyed hmem ih =>
    have hfound := (hsurveyed.leadsTo hdocument).found
    have hchild : (Json.obj ms).child? name = some w :=
      (Members.get?_eq_some_iff (hdocument.at hfound).1).2 hmem
    rw [Pointer.place_member, Treatment.below_append _ hfound, Treatment.below_singleton _ hchild]
    generalize (Treatment.inRole .schema).below document p.place = t at ih
    cases t with
    | inRole role =>
      obtain rfl : role = .schemaMap := ih
      rfl
    | labelled => cases ih
  | @element role p xs i x hsurveyed hrole hx ih =>
    have hchild : (Json.arr xs).child? (toString i) = some x := by rw [child?_toString, hx]
    rw [Pointer.place_element, Treatment.below_append _ (hsurveyed.leadsTo hdocument).found,
      Treatment.below_singleton _ hchild]
    generalize (Treatment.inRole .schema).below document p.place = t at ih
    subst ih
    cases t with
    | inRole role => rcases hrole with rfl | rfl | rfl <;> rfl
    | labelled => simp [Treatment.role] at hrole

theorem InMainTree.visits_below {node : Members} (h : document.InMainTree p node) :
    ((Treatment.inRole .schema).below document p.place).visits = true := by
  obtain ⟨role, hvisits, hsurveyed⟩ := h
  rw [← hsurveyed.role_below hdocument, Treatment.visits_role] at hvisits
  exact hvisits

theorem InMainTree.found {node : Members} (h : document.InMainTree p node) :
    document.at? p.place = some (.obj node) := by
  obtain ⟨role, -, hsurveyed⟩ := h
  exact (hsurveyed.leadsTo hdocument).found

/-- **The main tree is what a walk visits in the root.** -/
theorem mem_visits_iff_inMainTree {visit : Visit} :
    visit ∈ document.visits .schema [] ↔
      ∃ p : Pointer, p.place = visit.place ∧ document.InMainTree p visit.node := by
  constructor
  · intro hvisit
    exact Surveyed.exists_inMainTree .root hvisit
  · rintro ⟨p, hplace, h⟩
    have hmem := mem_visits_of_below [] (h.found hdocument) (h.visits_below hdocument)
    rw [List.nil_append, hplace] at hmem
    exact hmem

end WellFormed

end Json

end Relayout
