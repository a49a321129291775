/-
  Relayout/Proofs/Migration/Following.lean
  ========================================
  **How references are followed, step by step.**

  `Dialect.Followed` relates the state of a run before some steps to the state after them,
  when they all succeed.  It says what one step does and in which order steps are taken; the
  depth up to which `resolve` nests visits does not occur in it.  Whatever holds of every
  run is an induction over this relation, and a run that succeeds is one of its derivations
  (`Dialect.followed_of_resolve`, `Dialect.exists_followed_of_walk`).
-/
import Relayout.Migration.Transformer
import Relayout.Proofs.Migration.Visit
import Relayout.Proofs.Outcome

namespace Relayout

/-! ### Steps -/

/-- The state in which a document is begun. -/
def Progress.start (document : Json) : Progress := { unseen := document.refTexts.eraseDups }

/-- Steps that are all taken, one after the other, lead from one state of a run to another. -/
inductive Dialect.Followed (d : Dialect) (document : Json) :
    List Step → Progress → Progress → Prop where
  | done (s : Progress) : Followed d document [] s s
  /-- An event is logged. -/
  | note {event : Event} {todo : List Step} {s t : Progress} :
    Followed d document todo s t → Followed d document (.note event :: todo) s t
  /-- A reference out of the document is left alone. -/
  | external {ref : String} {source : Pointer} {todo : List Step} {s t : Progress} :
    internalFragment? ref = none → Followed d document todo s t →
      Followed d document (.follow ref source :: todo) s t
  /-- A reference met before is not followed again. -/
  | again {ref fragment : String} {source : Pointer} {todo : List Step} {s t : Progress} :
    internalFragment? ref = some fragment → ref ∉ s.unseen → Followed d document todo s t →
      Followed d document (.follow ref source :: todo) s t
  /-- A target outside of definitions is migrated where it stands. -/
  | inPlace {ref fragment : String} {source p : Pointer} {target : Json} {todo : List Step}
      {s t : Progress} :
    internalFragment? ref = some fragment → ref ∈ s.unseen →
      locate? document fragment = some (p, target) → p.isLazy = false →
      Followed d document todo (s.meet ref) t →
      Followed d document (.follow ref source :: todo) s t
  /-- A target in definitions is visited, and what it is migrated to is kept. -/
  | visit {ref fragment : String} {source p : Pointer} {target : Json} {todo : List Step}
      {s u t : Progress} :
    internalFragment? ref = some fragment → ref ∈ s.unseen →
      locate? document fragment = some (p, target) → p.isLazy = true →
      Followed d document (d.survey .schema p target) ((s.meet ref).reach ref) u →
      Followed d document todo (u.store p (d.migrate .schema target)) t →
      Followed d document (.follow ref source :: todo) s t

namespace Dialect

variable {d : Dialect} {document : Json}

theorem length_unseen_meet_le (s : Progress) (ref : String) :
    (s.meet ref).unseen.length ≤ s.unseen.length :=
  List.length_filter_le _ _

/-- No step makes the references that have not been met more. -/
theorem Followed.length_unseen_le {steps : List Step} {s t : Progress}
    (h : Followed d document steps s t) : t.unseen.length ≤ s.unseen.length := by
  induction h with
  | done s => exact Nat.le_refl _
  | note _ ih => exact ih
  | external _ _ ih => exact ih
  | again _ _ _ ih => exact ih
  | inPlace _ _ _ _ _ ih => exact Nat.le_trans ih (length_unseen_meet_le _ _)
  | visit _ _ _ _ _ _ ihTarget ihTodo =>
    exact Nat.le_trans (Nat.le_trans ihTodo ihTarget) (length_unseen_meet_le _ _)

/-- Steps taken with a way to visit definitions that follows the steps of their visits. -/
theorem followed_of_takeSteps {visit : Pointer → Json → Progress → Trace Progress} (depth : Nat)
    (hvisit : ∀ p target s t, s.unseen.length < depth → (visit p target s).result = .ok t →
      ∃ u, Followed d document (d.survey .schema p target) s u ∧
        t = u.store p (d.migrate .schema target))
    {steps : List Step} {s t : Progress} (hdepth : s.unseen.length ≤ depth)
    (h : (takeSteps visit document steps s).result = .ok t) :
    Followed d document steps s t := by
  induction steps generalizing s with
  | nil =>
    cases h
    exact .done _
  | cons step todo ih =>
    cases step with
    | note event => exact .note (ih hdepth h)
    | fail error => cases h
    | follow ref source =>
      rw [takeSteps] at h
      cases hfragment : internalFragment? ref with
      | none =>
        simp only [hfragment, Trace.after_result] at h
        exact .external hfragment (ih hdepth h)
      | some fragment =>
        simp only [hfragment] at h
        by_cases hmem : ref ∈ s.unseen
        · rw [if_pos hmem] at h
          cases hlocate : locate? document fragment with
          | none =>
            rw [hlocate] at h
            cases h
          | some found =>
            obtain ⟨p, target⟩ := found
            simp only [hlocate] at h
            have hlt := Progress.length_unseen_meet_lt hmem
            cases hlazy : p.isLazy with
            | false =>
              rw [hlazy] at h
              exact .inPlace hfragment hmem hlocate hlazy (ih (by omega) h)
            | true =>
              rw [hlazy, if_pos rfl, Trace.after_result, Trace.bind_result_eq_ok_iff] at h
              obtain ⟨mid, hmid, hrest⟩ := h
              obtain ⟨u, hu, rfl⟩ := hvisit p target _ mid (by simp [Progress.reach]; omega) hmid
              have hle : u.unseen.length ≤ (s.meet ref).unseen.length := hu.length_unseen_le
              exact .visit hfragment hmem hlocate hlazy hu
                (ih (by simp [Progress.store]; omega) hrest)
        · rw [if_neg hmem] at h
          exact .again hfragment hmem (ih hdepth h)

/-- Steps taken to a depth of as many visits as there are references not yet met. -/
theorem followed_of_resolve {depth : Nat} {steps : List Step} {s t : Progress}
    (hdepth : s.unseen.length ≤ depth) (h : (d.resolve document depth steps s).result = .ok t) :
    Followed d document steps s t := by
  induction depth generalizing steps s t with
  | zero =>
    refine followed_of_takeSteps 0 ?_ hdepth h
    intro p target s t hlt
    exact absurd hlt (Nat.not_lt_zero _)
  | succ depth ih =>
    refine followed_of_takeSteps (depth + 1) ?_ hdepth h
    intro p target s t hlt hvisit
    rw [visitWith, Trace.bind_result_eq_ok_iff] at hvisit
    obtain ⟨u, hu, hstore⟩ := hvisit
    cases hstore
    exact ⟨u, ih (by omega) hu, rfl⟩

/-- A walk that succeeds has followed all steps of visiting the root. -/
theorem exists_followed_of_walk {m : Migration} (h : (d.walk document).result = .ok m) :
    ∃ t, Followed d document (d.survey .schema .root document) (.start document) t ∧
      m.resolved = t.reached ∧
      m.schema = (splice (byDepth t.arena) (d.migrate .schema document)).2 := by
  rw [walk, Trace.bind_result_eq_ok_iff] at h
  obtain ⟨t, ht, hm⟩ := h
  cases hm
  exact ⟨t, followed_of_resolve (Nat.le_refl _) ht, rfl, rfl⟩

end Dialect

/-- A run that succeeds gives the root of a walk an identity. -/
theorem Transformer.exists_walk_of_run {t : Transformer} {document : Json} {m : Migration}
    (h : (t.run document).result = .ok m) :
    ∃ schema, (t.dialect.walk document).result = .ok ⟨schema, m.resolved⟩ ∧
      m.schema = schema.stamped t.rootId := by
  rw [Transformer.run, Trace.after_result] at h
  cases hcheck : t.precheck document with
  | error e =>
    rw [hcheck] at h
    cases h
  | ok _ =>
    simp only [hcheck] at h
    obtain ⟨⟨schema, resolved⟩, hwalk, hm⟩ := Trace.bind_result_eq_ok_iff.1 h
    cases hm
    exact ⟨schema, hwalk, rfl⟩

/-- Without a check of the input, a run succeeds exactly if the walk does. -/
theorem Transformer.exists_run_iff_exists_walk {t : Transformer} (hvalidator : t.validator = none)
    {document : Json} :
    (∃ m, (t.run document).result = .ok m) ↔ ∃ m, (t.dialect.walk document).result = .ok m := by
  constructor
  · rintro ⟨m, h⟩
    obtain ⟨schema, hwalk, -⟩ := exists_walk_of_run h
    exact ⟨_, hwalk⟩
  · rintro ⟨m, h⟩
    rw [run, precheck, hvalidator, Trace.after_result]
    exact ⟨_, Trace.bind_result_eq_ok_iff.2 ⟨m, h, rfl⟩⟩

end Relayout
