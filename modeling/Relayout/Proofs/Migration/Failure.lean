/-
  Relayout/Proofs/Migration/Failure.lean
  ======================================
  **Why a walk fails.**

  A walk that fails does so at an object that it visits: the extensions of the object cannot be
  mapped, its reference is no text, or its reference leads nowhere (`Dialect.Rejects`,
  `Dialect.exists_rejected_of_walk`).  The error of the walk is the one that belongs to this
  cause, whichever definitions were being visited when it was met.  So a walk succeeds if all
  the objects that it visits are acceptable (`Dialect.exists_walk_of_acceptable`).
-/
import Relayout.Proofs.Migration.Resolved
import Relayout.Proofs.Migration.Steps

namespace Relayout

open DepthFirst (Reachable)

namespace Json

/-- A reference leaves the document, or the pointer in its fragment leads to a value in it. -/
def Resolves (document : Json) (ref : String) : Prop :=
  ∀ fragment, internalFragment? ref = some fragment → locate? document fragment ≠ none

/-- The objects that are visited in the root and in the definitions that can be reached. -/
def Visited (document : Json) (visit : Visit) : Prop :=
  visit ∈ document.visits .schema [] ∨
    ∃ ref p target, Reachable document.targetRefs document.definitionRefs ref ∧
      Pointer.ofRef? ref = some p ∧ document.at? p.place = some target ∧
      visit ∈ target.visits .schema p.place

end Json

/-- What a walk asks of each object that it visits. -/
structure Dialect.Acceptable (d : Dialect) (document : Json) (node : Members) : Prop where
  /-- Wherever it stands, its extensions can be mapped. -/
  mapped : ∀ path, ∃ mapped, (d.mapping path node).result = .ok mapped
  /-- Its reference is a text that leaves the document or resolves in it. -/
  ref : ∀ v, node.get? "$ref" = some v → ∃ ref, v = .str ref ∧ document.Resolves ref

/-- A step gives up with an error, or its reference leads nowhere and this is the error. -/
inductive Step.FailsWith (document : Json) : Step → MigrationError → Prop where
  | fail (e : MigrationError) : FailsWith document (.fail e) e
  | unresolved {ref fragment : String} (source : Pointer) :
    internalFragment? ref = some fragment → locate? document fragment = none →
      FailsWith document (.follow ref source) (.unresolvedRef ref source.fragment)

/-- What makes a walk fail with an error at an object. -/
inductive Dialect.Rejects (d : Dialect) (document : Json) (node : Members) :
    MigrationError → Prop where
  | mapping {path : String} {e : MigrationError} :
    (d.mapping path node).result = .error e → Rejects d document node e
  | notText {v : Json} (place : String) : node.get? "$ref" = some v → v.asString? = none →
    Rejects d document node (.unresolvedRef v.compact place)
  | dangling {ref : String} (place : String) : node.get? "$ref" = some (.str ref) →
    ¬ document.Resolves ref → Rejects d document node (.unresolvedRef ref place)

namespace Dialect

variable {d : Dialect} {document : Json} {e : MigrationError}

/-! ### Steps -/

theorem mem_targetRefs_of_survey {ref found : String} {p : Pointer} {target : Json}
    (hp : Pointer.ofRef? ref = some p) (hat : document.at? p.place = some target)
    (h : found ∈ ((d.survey .schema p target).filterMap Step.ref?).filter leadsIntoDefinitions) :
    found ∈ document.targetRefs ref := by
  have htarget : document.target? ref = some target := by simp [Json.target?, hp, hat]
  rw [filterMap_ref?_survey d p [] .schema target] at h
  rw [Json.targetRefs, htarget]
  exact h

/-- Steps fail where one of them does, or in the visit of a definition that one of them enters. -/
theorem exists_failing_of_takeSteps {visit : Pointer → Json → Progress → Trace Progress}
    {steps : List Step} {s : Progress}
    (h : (takeSteps visit document steps s).result = .error e) :
    (∃ step ∈ steps, step.FailsWith document e) ∨
      ∃ ref ∈ (steps.filterMap Step.ref?).filter leadsIntoDefinitions, ∃ p target u,
        Pointer.ofRef? ref = some p ∧ document.at? p.place = some target ∧
        (visit p target u).result = .error e := by
  induction steps generalizing s with
  | nil => cases h
  | cons step todo ih =>
    -- the steps that are left fail for one of their own
    have hrest {s : Progress} (h : (takeSteps visit document todo s).result = .error e) :
        (∃ other ∈ step :: todo, other.FailsWith document e) ∨
          ∃ ref ∈ ((step :: todo).filterMap Step.ref?).filter leadsIntoDefinitions, ∃ p target u,
            Pointer.ofRef? ref = some p ∧ document.at? p.place = some target ∧
            (visit p target u).result = .error e := by
      rcases ih h with ⟨other, hother, hfails⟩ | ⟨ref, href, hvisit⟩
      · exact Or.inl ⟨other, List.mem_cons_of_mem _ hother, hfails⟩
      · refine Or.inr ⟨ref, ?_, hvisit⟩
        have hsublist := (List.sublist_cons_self step todo).filterMap Step.ref?
        exact (hsublist.filter leadsIntoDefinitions).subset href
    cases step with
    | note event => exact hrest h
    | fail error =>
      cases h
      exact Or.inl ⟨_, List.mem_cons_self, .fail e⟩
    | follow ref source =>
      rw [takeSteps] at h
      cases hfragment : internalFragment? ref with
      | none =>
        simp only [hfragment, Trace.after_result] at h
        exact hrest h
      | some fragment =>
        simp only [hfragment] at h
        by_cases hmem : ref ∈ s.unseen
        · rw [if_pos hmem] at h
          cases hlocate : locate? document fragment with
          | none =>
            rw [hlocate] at h
            cases h
            exact Or.inl ⟨_, List.mem_cons_self, .unresolved source hfragment hlocate⟩
          | some found =>
            obtain ⟨p, target⟩ := found
            simp only [hlocate] at h
            cases hlazy : p.isLazy with
            | false =>
              rw [hlazy] at h
              exact hrest h
            | true =>
              rw [hlazy, if_pos rfl, Trace.after_result] at h
              obtain ⟨hpointer, hat⟩ := locate?_eq_some hfragment hlocate
              rcases Trace.bind_result_eq_error h with hvisit | ⟨u, -, htodo⟩
              · refine Or.inr ⟨ref, ?_, p, target, _, hpointer, hat, hvisit⟩
                rw [filterMap_ref?_follow,
                  List.filter_cons_of_pos (by rw [leadsIntoDefinitions_eq hpointer, hlazy])]
                exact List.mem_cons_self
              · exact hrest htodo
        · rw [if_neg hmem] at h
          exact hrest h

/-- Where steps fail, one of them does, or one in the visit of a definition that can be reached. -/
theorem exists_failing_of_resolve {depth : Nat} {steps : List Step} {s : Progress}
    (hrefs : ∀ ref ∈ (steps.filterMap Step.ref?).filter leadsIntoDefinitions,
      Reachable document.targetRefs document.definitionRefs ref)
    (h : (d.resolve document depth steps s).result = .error e) :
    ∃ step, step.FailsWith document e ∧ (step ∈ steps ∨ ∃ ref p target,
      Reachable document.targetRefs document.definitionRefs ref ∧ Pointer.ofRef? ref = some p ∧
      document.at? p.place = some target ∧ step ∈ d.survey .schema p target) := by
  induction depth generalizing steps s with
  | zero =>
    rcases exists_failing_of_takeSteps h with ⟨step, hstep, hfails⟩ | ⟨_, _, _, _, _, _, _, hvisit⟩
    · exact ⟨step, hfails, Or.inl hstep⟩
    · cases hvisit
  | succ depth ih =>
    rcases exists_failing_of_takeSteps h with
      ⟨step, hstep, hfails⟩ | ⟨ref, href, p, target, u, hp, hat, hvisit⟩
    · exact ⟨step, hfails, Or.inl hstep⟩
    · have hreach := hrefs ref href
      have hinner : ∀ found ∈
          ((d.survey .schema p target).filterMap Step.ref?).filter leadsIntoDefinitions,
          Reachable document.targetRefs document.definitionRefs found := by
        intro found hfound
        exact hreach.step (mem_targetRefs_of_survey hp hat hfound)
      rcases Trace.bind_result_eq_error hvisit with hinside | ⟨_, -, hstore⟩
      · obtain ⟨step, hfails, hstep | hdeeper⟩ := ih hinner hinside
        · exact ⟨step, hfails, Or.inr ⟨ref, p, target, hreach, hp, hat, hstep⟩⟩
        · exact ⟨step, hfails, Or.inr hdeeper⟩
      · cases hstore

/-! ### Objects -/

/-- What is acceptable to a walk does not make it fail. -/
theorem Acceptable.not_rejects {node : Members} (h : d.Acceptable document node) :
    ¬ d.Rejects document node e := by
  intro hrejects
  cases hrejects with
  | mapping hresult =>
    obtain ⟨mapped, hmapped⟩ := h.mapped _
    rw [hmapped] at hresult
    cases hresult
  | notText place hv htext =>
    obtain ⟨ref, rfl, -⟩ := h.ref _ hv
    cases htext
  | dangling place href hnot =>
    obtain ⟨ref, href', hresolves⟩ := h.ref _ href
    cases href'
    exact hnot hresolves

/-- A step that a visited object brings fails for what is wrong with the object. -/
theorem rejects_of_failsWith {p : Pointer} {node : Members} {step : Step}
    (hstep : step ∈ d.ruleSteps p node ++ refSteps p node) (hfails : step.FailsWith document e) :
    d.Rejects document node e := by
  rcases List.mem_append.1 hstep with hrule | href
  · unfold ruleSteps at hrule
    rcases List.mem_append.1 hrule with hnote | herror
    · obtain ⟨rule, -, rfl⟩ := List.mem_map.1 hnote
      cases hfails
    · cases hresult : (d.mapping p.text node).result with
      | ok mapped =>
        rw [hresult] at herror
        cases herror
      | error error =>
        rw [hresult] at herror
        obtain rfl := List.mem_singleton.1 herror
        cases hfails
        exact .mapping hresult
  · unfold refSteps at href
    split at href
    · cases href
    · rename_i ref hget
      obtain rfl := List.mem_singleton.1 href
      cases hfails with
      | unresolved source hfragment hlocate =>
        refine .dangling _ hget (fun hresolves => ?_)
        exact hresolves _ hfragment hlocate
    · rename_i v hnot hget
      obtain rfl := List.mem_singleton.1 href
      cases hfails
      refine .notText _ hget ?_
      cases v with
      | str text => exact absurd rfl (hnot text)
      | null | bool | num | arr | obj => rfl

theorem exists_rejected_of_survey {v : Json} {p : Pointer} (place : Place) {step : Step}
    (hstep : step ∈ d.survey .schema p v) (hfails : step.FailsWith document e) :
    ∃ visit ∈ v.visits .schema place, d.Rejects document visit.node e := by
  rcases (d.brings_survey v .schema p place).origin step hstep with
    ⟨q, i, xs, hlabel⟩ | ⟨visit, hvisit, q, hmem⟩
  · obtain ⟨event, rfl, -⟩ := exists_note_of_mem_allLabelSteps hlabel
    cases hfails
  · exact ⟨visit, hvisit, rejects_of_failsWith hmem hfails⟩

/-- **A walk that fails was made to by an object that it visits.** -/
theorem exists_rejected_of_walk (h : (d.walk document).result = .error e) :
    ∃ visit, document.Visited visit ∧ d.Rejects document visit.node e := by
  rcases Trace.bind_result_eq_error h with hresolve | ⟨_, -, hsplice⟩
  · have hrefs : ∀ ref ∈
        ((d.survey .schema .root document).filterMap Step.ref?).filter leadsIntoDefinitions,
        Reachable document.targetRefs document.definitionRefs ref := by
      intro ref href
      rw [filterMap_ref?_survey d .root [] .schema document] at href
      exact .root href
    obtain ⟨step, hfails, hroot | ⟨ref, p, target, hreach, hp, hat, htarget⟩⟩ :=
      exists_failing_of_resolve hrefs hresolve
    · obtain ⟨visit, hvisit, hrejects⟩ := exists_rejected_of_survey [] hroot hfails
      exact ⟨visit, Or.inl hvisit, hrejects⟩
    · obtain ⟨visit, hvisit, hrejects⟩ := exists_rejected_of_survey p.place htarget hfails
      exact ⟨visit, Or.inr ⟨ref, p, target, hreach, hp, hat, hvisit⟩, hrejects⟩
  · cases hsplice

/-- If all objects to be visited are acceptable, the walk succeeds. -/
theorem exists_walk_of_acceptable
    (h : ∀ visit, document.Visited visit → d.Acceptable document visit.node) :
    ∃ m, (d.walk document).result = .ok m := by
  cases hresult : (d.walk document).result with
  | ok m => exact ⟨m, rfl⟩
  | error e =>
    obtain ⟨visit, hvisit, hrejects⟩ := exists_rejected_of_walk hresult
    exact absurd hrejects (h visit hvisit).not_rejects

end Dialect

/-- A run fails because its input is rejected, or because its walk fails. -/
theorem Transformer.rejected_or_walk_of_run {t : Transformer} {document : Json} {e : MigrationError}
    (h : (t.run document).result = .error e) :
    (∃ validate errors, t.validator = some validate ∧ validate document = .error errors ∧
      e = .invalidInput errors) ∨ (t.dialect.walk document).result = .error e := by
  rw [run, Trace.after_result, precheck] at h
  have hwalk (h : ((t.dialect.walk document).bind fun m =>
      (⟨[.migrated m.resolved.length], .ok { m with schema := m.schema.stamped t.rootId }⟩ :
        Trace Migration)).result = .error e) : (t.dialect.walk document).result = .error e := by
    rcases Trace.bind_result_eq_error h with hfails | ⟨_, -, hstamp⟩
    · exact hfails
    · cases hstamp
  cases hvalidator : t.validator with
  | none =>
    rw [hvalidator] at h
    exact Or.inr (hwalk h)
  | some validate =>
    rw [hvalidator] at h
    cases hcheck : validate document with
    | ok _ =>
      simp only [hcheck] at h
      exact Or.inr (hwalk h)
    | error errors =>
      simp only [hcheck] at h
      cases h
      exact Or.inl ⟨validate, errors, rfl, hcheck, rfl⟩

end Relayout
