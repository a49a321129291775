/-
  Relayout/Proofs/Migration/Resolved.lean
  =======================================
  **Which references a run lists as resolved, and in which order.**

  A run lists the references into definitions that can be reached: those that the objects
  visited in the root carry, those that the objects visited in their targets carry, and so
  on.  Each is listed once, where a depth-first tour meets it first
  (`Transformer.resolved_run`).

  The references followed in a visit are those that its visited objects carry, so taking
  the steps of a visit is a depth-first search along them (`Dialect.Followed.search`).  The
  search takes a reference for new when its text has not been met, and for references into
  definitions this is when it has not been reached (`Progress.MetReached`).
-/
import Relayout.Proofs.Migration.DepthFirst
import Relayout.Proofs.Migration.Reached

namespace Relayout

open DepthFirst (Reachable Search Tour)

/-- Whether a reference leads into the definitions of its document. -/
def leadsIntoDefinitions (ref : String) : Bool := (Pointer.ofRef? ref).any Pointer.isLazy

namespace Json

/-- The references into definitions that the objects visited in a schema carry, in the order in
    which they are followed. -/
def definitionRefs (v : Json) : List String :=
  ((v.visits .schema []).filterMap Visit.ref?).filter leadsIntoDefinitions

/-- The value that a reference leads to. -/
def target? (document : Json) (ref : String) : Option Json :=
  (Pointer.ofRef? ref).bind (fun p => document.at? p.place)

/-- The references into definitions that the objects visited in a target carry. -/
def targetRefs (document : Json) (ref : String) : List String :=
  match document.target? ref with
  | some target => target.definitionRefs
  | none => []

/-! ### Reference texts -/

theorem mem_memberRefTexts {ms : Members} {ref : String}
    (h : (ms.get? "$ref").bind asString? = some ref) : ref ∈ memberRefTexts ms := by
  induction ms with
  | nil => cases h
  | cons m ms ih =>
    obtain ⟨k, v⟩ := m
    rw [memberRefTexts, List.mem_append, List.mem_append]
    by_cases hk : k = "$ref"
    · rw [Members.get?, if_pos hk, Option.bind_some] at h
      simp [hk, h]
    · rw [Members.get?, if_neg hk] at h
      exact Or.inr (ih h)

theorem refTexts_subset_memberRefTexts {ms : Members} {key : String} {v : Json}
    (h : ms.get? key = some v) : v.refTexts ⊆ memberRefTexts ms := by
  induction ms with
  | nil => cases h
  | cons m ms ih =>
    obtain ⟨k, w⟩ := m
    intro ref href
    rw [memberRefTexts, List.mem_append, List.mem_append]
    by_cases hk : k = key
    · rw [Members.get?, if_pos hk] at h
      cases h
      exact Or.inl (Or.inr href)
    · rw [Members.get?, if_neg hk] at h
      exact Or.inr (ih h href)

theorem refTexts_subset_elementRefTexts {xs : List Json} {i : Nat} {x : Json}
    (h : xs[i]? = some x) : x.refTexts ⊆ elementRefTexts xs := by
  induction xs generalizing i with
  | nil => cases h
  | cons y ys ih =>
    intro ref href
    rw [elementRefTexts, List.mem_append]
    cases i with
    | zero =>
      rw [List.getElem?_cons_zero] at h
      cases h
      exact Or.inl href
    | succ i => exact Or.inr (ih h href)

/-- The texts in a value stand in every value that it is a part of. -/
theorem refTexts_subset_of_at? {v w : Json} {place : Place} (h : v.at? place = some w) :
    w.refTexts ⊆ v.refTexts := by
  induction place generalizing v with
  | nil =>
    cases h
    exact List.Subset.refl _
  | cons name place ih =>
    rw [at?_cons, Option.bind_eq_some_iff] at h
    obtain ⟨child, hchild, hat⟩ := h
    refine List.Subset.trans (ih hat) ?_
    cases v with
    | obj ms => exact refTexts_subset_memberRefTexts hchild
    | arr xs =>
      rw [child?, Option.bind_eq_some_iff] at hchild
      obtain ⟨i, -, hx⟩ := hchild
      exact refTexts_subset_elementRefTexts hx
    | null | bool | num | str => cases hchild

open Dialect (mem_inTraversalOrder)

mutual

/-- The references that visited objects carry are among the texts of the value. -/
theorem mem_refTexts_of_visit {visit : Visit} {ref : String} (href : visit.ref? = some ref) :
    ∀ (v : Json) (role : Role) (place : Place), visit ∈ v.visits role place → ref ∈ v.refTexts
  | .obj ms, role, place, hvisit => by
    have hschema (h : visit ∈ Dialect.inTraversalOrder (visitsMembers place ms) ++ [⟨place, ms⟩]) :
        ref ∈ memberRefTexts ms := by
      rcases List.mem_append.1 h with hbelow | hself
      · obtain ⟨e, he, hmem⟩ := mem_inTraversalOrder hbelow
        exact mem_memberRefTexts_of_visit href ms place e he hmem
      · rw [List.mem_singleton.1 hself] at href
        exact mem_memberRefTexts href
    cases role with
    | schema => exact hschema hvisit
    | schemaOrList => exact hschema hvisit
    | schemaMap => exact mem_memberRefTexts_of_visitsEntries href ms place hvisit
    | schemaList | labelledList | verbatim => cases hvisit
  | .arr xs, role, place, hvisit => by
    cases role with
    | schemaList => exact mem_elementRefTexts_of_visit href xs 0 place hvisit
    | schemaOrList => exact mem_elementRefTexts_of_visit href xs 0 place hvisit
    | labelledList => exact mem_elementRefTexts_of_visit href xs 0 place hvisit
    | schema | schemaMap | verbatim => cases hvisit
  | .null, role, _, hvisit | .bool _, role, _, hvisit | .num _, role, _, hvisit
  | .str _, role, _, hvisit => by cases role <;> cases hvisit

theorem mem_memberRefTexts_of_visit {visit : Visit} {ref : String}
    (href : visit.ref? = some ref) : ∀ (ms : Members) (place : Place),
    ∀ e ∈ visitsMembers place ms, visit ∈ e.2 → ref ∈ memberRefTexts ms
  | [], _, e, he, _ => by cases he
  | (k, v) :: ms, place, e, he, hvisit => by
    rw [memberRefTexts, List.mem_append, List.mem_append]
    rw [visitsMembers] at he
    rcases List.mem_cons.1 he with rfl | hrest
    · exact Or.inl (Or.inr (mem_refTexts_of_visit href v _ _ hvisit))
    · exact Or.inr (mem_memberRefTexts_of_visit href ms place e hrest hvisit)

theorem mem_memberRefTexts_of_visitsEntries {visit : Visit} {ref : String}
    (href : visit.ref? = some ref) : ∀ (ms : Members) (place : Place),
    visit ∈ visitsEntries place ms → ref ∈ memberRefTexts ms
  | [], _, hvisit => by cases hvisit
  | (k, v) :: ms, place, hvisit => by
    rw [memberRefTexts, List.mem_append, List.mem_append]
    rw [visitsEntries] at hvisit
    rcases List.mem_append.1 hvisit with hhere | hrest
    · exact Or.inl (Or.inr (mem_refTexts_of_visit href v _ _ hhere))
    · exact Or.inr (mem_memberRefTexts_of_visitsEntries href ms place hrest)

theorem mem_elementRefTexts_of_visit {visit : Visit} {ref : String}
    (href : visit.ref? = some ref) : ∀ (xs : List Json) (i : Nat) (place : Place),
    visit ∈ visitsElements place i xs → ref ∈ elementRefTexts xs
  | [], _, _, hvisit => by cases hvisit
  | x :: xs, i, place, hvisit => by
    rw [elementRefTexts, List.mem_append]
    rw [visitsElements] at hvisit
    rcases List.mem_append.1 hvisit with hhere | hrest
    · exact Or.inl (mem_refTexts_of_visit href x _ _ hhere)
    · exact Or.inr (mem_elementRefTexts_of_visit href xs (i + 1) place hrest)

end

theorem visits_ref?_subset_refTexts (v : Json) (role : Role) (place : Place) :
    (v.visits role place).filterMap Visit.ref? ⊆ v.refTexts := by
  intro ref href
  obtain ⟨visit, hvisit, href⟩ := List.mem_filterMap.1 href
  exact mem_refTexts_of_visit href v role place hvisit

end Json

/-! ### Steps as a search -/

/-- Of the references into definitions, those that have been met are those that have been
    reached. -/
def Progress.MetReached (document : Json) (s : Progress) : Prop :=
  ∀ ref ∈ document.refTexts, leadsIntoDefinitions ref = true → (ref ∈ s.unseen ↔ ref ∉ s.reached)

theorem Progress.metReached_start (document : Json) : (start document).MetReached document := by
  intro ref href _
  simp [start, href]

theorem Progress.MetReached.meet {document : Json} {s : Progress} (h : s.MetReached document)
    {ref : String} (hother : leadsIntoDefinitions ref = false) :
    (s.meet ref).MetReached document := by
  intro r hr hlazy
  have hne : r ≠ ref := by
    rintro rfl
    rw [hother] at hlazy
    cases hlazy
  simp only [Progress.meet, List.mem_filter, h r hr hlazy]
  simp [hne]

theorem Progress.MetReached.reach {document : Json} {s : Progress} (h : s.MetReached document)
    (ref : String) : ((s.meet ref).reach ref).MetReached document := by
  intro r hr hlazy
  simp only [Progress.meet, Progress.reach, List.mem_filter, h r hr hlazy]
  simp

theorem leadsIntoDefinitions_eq {ref : String} {p : Pointer} (h : Pointer.ofRef? ref = some p) :
    leadsIntoDefinitions ref = p.isLazy := by
  simp [leadsIntoDefinitions, h]

namespace Dialect

variable {d : Dialect} {document : Json}

theorem filterMap_ref?_follow (ref : String) (source : Pointer) (todo : List Step) :
    (Step.follow ref source :: todo).filterMap Step.ref? = ref :: todo.filterMap Step.ref? := rfl

/-- Steps that are all taken are a search along the references into definitions. -/
theorem Followed.search {steps : List Step} {s t : Progress}
    (h : Followed d document steps s t)
    (htexts : steps.filterMap Step.ref? ⊆ document.refTexts) (hmet : s.MetReached document) :
    Search document.targetRefs ((steps.filterMap Step.ref?).filter leadsIntoDefinitions)
        s.reached t.reached ∧ t.MetReached document := by
  induction h with
  | done s => exact ⟨.done _, hmet⟩
  | note _ ih => exact ih htexts hmet
  | @external ref _ todo _ _ hfragment _ ih =>
    have hother : leadsIntoDefinitions ref = false := by
      simp [leadsIntoDefinitions, Pointer.ofRef?, hfragment]
    rw [filterMap_ref?_follow] at htexts ⊢
    rw [List.filter_cons_of_neg (by simp [hother])]
    exact ih (List.cons_subset.1 htexts).2 hmet
  | @again ref _ _ todo s _ hfragment hseen _ ih =>
    rw [filterMap_ref?_follow] at htexts ⊢
    obtain ⟨href, htodo⟩ := List.cons_subset.1 htexts
    obtain ⟨hsearch, hmet'⟩ := ih htodo hmet
    by_cases hlazy : leadsIntoDefinitions ref = true
    · rw [List.filter_cons_of_pos hlazy]
      have hreached : ref ∈ s.reached := by
        simpa [hmet ref href hlazy] using hseen
      exact ⟨.again hreached hsearch, hmet'⟩
    · rw [List.filter_cons_of_neg hlazy]
      exact ⟨hsearch, hmet'⟩
  | @inPlace ref _ _ p _ todo _ _ hfragment _ hlocate hlazy _ ih =>
    have hother : leadsIntoDefinitions ref = false := by
      rw [leadsIntoDefinitions_eq (locate?_eq_some hfragment hlocate).1, hlazy]
    rw [filterMap_ref?_follow] at htexts ⊢
    rw [List.filter_cons_of_neg (by simp [hother])]
    exact ih (List.cons_subset.1 htexts).2 (hmet.meet hother)
  | @visit ref _ _ p target todo s u _ hfragment hnew hlocate hlazy _ _ ihTarget ihTodo =>
    obtain ⟨hpointer, hat⟩ := locate?_eq_some hfragment hlocate
    have hleads : leadsIntoDefinitions ref = true := by
      rw [leadsIntoDefinitions_eq hpointer, hlazy]
    have htarget : document.targetRefs ref = target.definitionRefs := by
      simp [Json.targetRefs, Json.target?, hpointer, hat]
    rw [filterMap_ref?_follow] at htexts ⊢
    obtain ⟨href, htodo⟩ := List.cons_subset.1 htexts
    rw [filterMap_ref?_survey d p [] .schema target] at ihTarget
    obtain ⟨hinner, hmetInner⟩ := ihTarget
      (List.Subset.trans (target.visits_ref?_subset_refTexts .schema [])
        (Json.refTexts_subset_of_at? hat)) (hmet.reach ref)
    obtain ⟨hrest, hmetRest⟩ := ihTodo htodo hmetInner
    rw [List.filter_cons_of_pos hleads]
    refine ⟨.enter ((hmet ref href hleads).1 hnew) ?_ hrest, hmetRest⟩
    rw [htarget]
    exact hinner

/-- A walk that succeeds is a search from the references of the root. -/
theorem search_of_walk {m : Migration} (h : (d.walk document).result = .ok m) :
    Search document.targetRefs document.definitionRefs [] m.resolved := by
  obtain ⟨t, hfollowed, hresolved, -⟩ := exists_followed_of_walk h
  have hrefs := filterMap_ref?_survey d .root [] .schema document
  have htexts : (d.survey .schema .root document).filterMap Step.ref? ⊆ document.refTexts := by
    rw [hrefs]
    exact document.visits_ref?_subset_refTexts .schema []
  have hsearch := (hfollowed.search htexts (Progress.metReached_start document)).1
  rw [hrefs] at hsearch
  rw [hresolved]
  exact hsearch

end Dialect

/-! ### The references of a run -/

namespace Json

theorem definitionRefs_subset_refTexts (v : Json) : v.definitionRefs ⊆ v.refTexts :=
  List.Subset.trans (List.filter_sublist.subset) (v.visits_ref?_subset_refTexts .schema [])

theorem targetRefs_subset_refTexts (document : Json) (ref : String) :
    document.targetRefs ref ⊆ document.refTexts := by
  unfold targetRefs
  cases htarget : document.target? ref with
  | none => exact List.nil_subset _
  | some target =>
    obtain ⟨p, -, hat⟩ := Option.bind_eq_some_iff.1 htarget
    exact List.Subset.trans target.definitionRefs_subset_refTexts (refTexts_subset_of_at? hat)

end Json

namespace Transformer

/-- **A run that succeeds lists exactly the references into definitions that can be reached**,
    each once, in the order in which a depth-first tour meets them first. -/
theorem resolved_run {t : Transformer} {document : Json} {m : Migration}
    (h : (t.run document).result = .ok m) :
    m.resolved.Nodup ∧
      (∀ ref, ref ∈ m.resolved ↔ Reachable document.targetRefs document.definitionRefs ref) ∧
      (∃ met, Tour document.targetRefs [] document.definitionRefs met) ∧
      ∀ met, Tour document.targetRefs [] document.definitionRefs met →
        m.resolved = met.eraseDups := by
  obtain ⟨schema, hwalk, -⟩ := exists_walk_of_run h
  have hsearch := Dialect.search_of_walk hwalk
  refine ⟨hsearch.nodup List.nodup_nil, fun ref => hsearch.mem_iff_reachable, ?_,
    fun met htour => hsearch.eq_eraseDups htour⟩
  exact DepthFirst.exists_tour document.targetRefs_subset_refTexts
    document.definitionRefs_subset_refTexts

/-- A document whose definitions refer to each other and to themselves. -/
def mutualDocument : Json :=
  .obj [("properties", .obj [("x", .obj [("$ref", .str "#/definitions/a")])]),
    ("definitions", .obj [
      ("a", .obj [("properties", .obj [("y", .obj [("$ref", .str "#/definitions/b")])])]),
      ("b", .obj [("properties", .obj [("z", .obj [("$ref", .str "#/definitions/a")])]),
        ("not", .obj [("$ref", .str "#/definitions/b")])])]),
    ("$id", .str "mutual")]

theorem resolved_run_mutualDocument :
    (run ⟨⟨Table.builtin, {}⟩, defaultRootId, none⟩ mutualDocument).result
        = .ok ⟨mutualDocument, ["#/definitions/a", "#/definitions/b"]⟩ ∧
      ["#/definitions/a", "#/definitions/b"].Nodup ∧
      (∀ ref, ref ∈ ["#/definitions/a", "#/definitions/b"] ↔
        Reachable mutualDocument.targetRefs mutualDocument.definitionRefs ref) ∧
      (∃ met, Tour mutualDocument.targetRefs [] mutualDocument.definitionRefs met) ∧
      ∀ met, Tour mutualDocument.targetRefs [] mutualDocument.definitionRefs met →
        ["#/definitions/a", "#/definitions/b"] = met.eraseDups :=
  have hrun : (run ⟨⟨Table.builtin, {}⟩, defaultRootId, none⟩ mutualDocument).result
      = .ok ⟨mutualDocument, ["#/definitions/a", "#/definitions/b"]⟩ :=
    Trace.result_eq_ok_of_toOption (by decide +kernel)
  ⟨hrun, resolved_run hrun⟩

end Transformer

end Relayout
