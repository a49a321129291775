/-
  Relayout/Proofs/Migration/Course.lean
  =====================================
  **The course of a run, from its jobs to its log and its end.**

  `Dialect.Goes` relates the jobs that are left to what doing them comes to: the events that are
  logged from here on, and the progress in the end or the error of the job that fails.  Each job
  has its cases there and nothing is nested, since the jobs of a definition come before those that
  are left.  What a document comes to is the course of the route of its root
  (`Dialect.goes_follow`), so whatever holds of every log or every failure is an induction over
  this relation.
-/
import Relayout.Proofs.Migration.Route

namespace Relayout

namespace Dialect

/-- Doing jobs in order comes to this, with these events on the way. -/
inductive Goes (d : Dialect) (document : Json) : List Job → Progress → Trace Progress → Prop where
  | done (s : Progress) : Goes d document [] s (.pure s)
  | enter {visit : Visit} {todo : List Job} {s : Progress} {out : Trace Progress} :
    Goes d document todo s out → Goes d document (.enter visit :: todo) s out
  | note {event : Event} {todo : List Job} {s : Progress} {out : Trace Progress} :
    Goes d document todo s out → Goes d document (.take (.note event) :: todo) s (out.after [event])
  | fail (e : MigrationError) (todo : List Job) (s : Progress) :
    Goes d document (.take (.fail e) :: todo) s (.fail e)
  | external {ref : String} {source : Pointer} {todo : List Job} {s : Progress}
      {out : Trace Progress} :
    internalFragment? ref = none → Goes d document todo s out →
      Goes d document (.take (.follow ref source) :: todo) s
        (out.after [.externalRef ref source.fragment])
  | again {ref fragment : String} {source : Pointer} {todo : List Job} {s : Progress}
      {out : Trace Progress} :
    internalFragment? ref = some fragment → ref ∉ s.unseen → Goes d document todo s out →
      Goes d document (.take (.follow ref source) :: todo) s out
  | dangling {ref fragment : String} {source : Pointer} {todo : List Job} {s : Progress} :
    internalFragment? ref = some fragment → ref ∈ s.unseen → locate? document fragment = none →
      Goes d document (.take (.follow ref source) :: todo) s
        (.fail (.unresolvedRef ref source.fragment))
  | inPlace {ref fragment : String} {source p : Pointer} {target : Json} {todo : List Job}
      {s : Progress} {out : Trace Progress} :
    internalFragment? ref = some fragment → ref ∈ s.unseen →
      locate? document fragment = some (p, target) → p.isLazy = false →
      Goes d document todo (s.meet ref) out →
      Goes d document (.take (.follow ref source) :: todo) s out
  /-- The visit of a definition comes before what is left. -/
  | definition {ref fragment : String} {source p : Pointer} {target : Json} {todo : List Job}
      {s : Progress} {out : Trace Progress} :
    internalFragment? ref = some fragment → ref ∈ s.unseen →
      locate? document fragment = some (p, target) → p.isLazy = true →
      Goes d document (d.route .schema p p.place target ++ .keep p target :: todo)
        ((s.meet ref).reach ref) out →
      Goes d document (.take (.follow ref source) :: todo) s
        (out.after [.migratingDefinition ref])
  | keep {p : Pointer} {target : Json} {todo : List Job} {s : Progress} {out : Trace Progress} :
    Goes d document todo (s.store p (d.migrate .schema target)) out →
      Goes d document (.keep p target :: todo) s out

variable {d : Dialect} {document : Json}

/-! ### Jobs and the tasks of a stage -/

theorem Goes.enter_all {todo : List Job} {s : Progress} {out : Trace Progress}
    (h : d.Goes document todo s out) (marks : List Visit) :
    d.Goes document (marks.map .enter ++ todo) s out := by
  induction marks with
  | nil => exact h
  | cons mark marks ih => exact .enter ih

/-- The first task of a stage is a job after some marks. -/
theorem exists_job_of_filterMap_task? {jobs : List Job} {task : Task} {tasks : List Task}
    (h : jobs.filterMap Job.task? = task :: tasks) :
    ∃ (marks : List Visit) (job : Job) (todo : List Job), jobs = marks.map .enter ++ job :: todo ∧
      job.task? = some task ∧ todo.filterMap Job.task? = tasks := by
  induction jobs with
  | nil => cases h
  | cons job jobs ih =>
    cases hjob : job.task? with
    | none =>
      rw [List.filterMap_cons, hjob] at h
      obtain ⟨marks, next, todo, rfl, hnext, htodo⟩ := ih h
      cases job with
      | enter visit => exact ⟨visit :: marks, next, todo, rfl, hnext, htodo⟩
      | take step => cases hjob
      | keep p target => cases hjob
    | some found =>
      rw [List.filterMap_cons, hjob] at h
      obtain ⟨rfl, rfl⟩ := List.cons.inj h
      exact ⟨[], job, jobs, rfl, hjob, rfl⟩

/-- From a stage on, jobs with the tasks of the stage go to an end. -/
def GoesFrom (d : Dialect) (document : Json) (stage : Stage) (out : Trace Progress) : Prop :=
  ∀ jobs : List Job, jobs.filterMap Job.task? = stage.todo →
    ∃ rest, d.Goes document jobs stage.progress rest ∧ out = rest.after stage.events

/-- For one job first, it is enough to know how the jobs after it go. -/
theorem goesFrom_cons {task : Task} {tasks : List Task} {s : Progress} {events : List Event}
    {out : Trace Progress}
    (h : ∀ (job : Job) (todo : List Job), job.task? = some task →
      todo.filterMap Job.task? = tasks →
      ∃ rest, d.Goes document (job :: todo) s rest ∧ out = rest.after events) :
    d.GoesFrom document ⟨task :: tasks, s, events⟩ out := by
  intro jobs hjobs
  obtain ⟨marks, job, todo, rfl, hjob, htodo⟩ := exists_job_of_filterMap_task? hjobs
  obtain ⟨rest, hrest, hout⟩ := h job todo hjob htodo
  exact ⟨rest, hrest.enter_all marks, hout⟩

theorem eq_take_of_task? {job : Job} {step : Step} (h : job.task? = some (.take step)) :
    job = .take step := by
  cases job with
  | enter visit => cases h
  | take other => cases h; rfl
  | keep p target => cases h

theorem eq_keep_of_task? {job : Job} {p : Pointer} {target : Json}
    (h : job.task? = some (.keep p target)) : job = .keep p target := by
  cases job with
  | enter visit => cases h
  | take step => cases h
  | keep q other => cases h; rfl

theorem goesFrom_of_ended {stage : Stage} {out : Trace Progress}
    (h : d.advance document stage = .inl out) : d.GoesFrom document stage out := by
  obtain ⟨tasks, s, events⟩ := stage
  cases tasks with
  | nil =>
    cases h
    intro jobs hjobs
    obtain ⟨marks, rfl⟩ := exists_marks_of_filterMap_task? hjobs
    refine ⟨.pure s, ?_, by simp [Trace.after, Trace.pure]⟩
    have hdone : d.Goes document [] s (.pure s) := .done s
    simpa using hdone.enter_all marks
  | cons task tasks =>
    apply goesFrom_cons
    intro job todo hjob _
    cases task with
    | keep p target => cases h
    | take step =>
      obtain rfl := eq_take_of_task? hjob
      cases step with
      | note event => cases h
      | fail e =>
        cases h
        exact ⟨.fail e, .fail e todo s, by simp [Trace.after, Trace.fail]⟩
      | follow ref source =>
        simp only [advance] at h
        split at h
        · cases h
        · rename_i fragment hfragment
          split at h
          · rename_i hunseen
            split at h
            · rename_i hlocate
              cases h
              exact ⟨_, .dangling hfragment hunseen hlocate, by simp [Trace.after, Trace.fail]⟩
            · split at h <;> cases h
          · cases h

theorem goesFrom_of_moved {stage next : Stage} {out : Trace Progress}
    (h : d.advance document stage = .inr next) (hnext : d.GoesFrom document next out) :
    d.GoesFrom document stage out := by
  obtain ⟨tasks, s, events⟩ := stage
  cases tasks with
  | nil => cases h
  | cons task tasks =>
    apply goesFrom_cons
    intro job todo hjob htodo
    cases task with
    | keep p target =>
      obtain rfl := eq_keep_of_task? hjob
      cases h
      obtain ⟨rest, hrest, hout⟩ := hnext todo htodo
      exact ⟨rest, .keep hrest, hout⟩
    | take step =>
      obtain rfl := eq_take_of_task? hjob
      cases step with
      | fail e => cases h
      | note event =>
        cases h
        obtain ⟨rest, hrest, hout⟩ := hnext todo htodo
        exact ⟨_, .note hrest, by rw [hout, after_after]⟩
      | follow ref source =>
        simp only [advance] at h
        split at h
        · rename_i hfragment
          cases h
          obtain ⟨rest, hrest, hout⟩ := hnext todo htodo
          exact ⟨_, .external hfragment hrest, by rw [hout, after_after]⟩
        · rename_i fragment hfragment
          split at h
          · rename_i hunseen
            split at h
            · cases h
            · rename_i p target hlocate
              split at h
              · rename_i hlazy
                cases h
                have htasks :
                    (d.route .schema p p.place target ++ .keep p target :: todo).filterMap Job.task?
                      = (d.survey .schema p target).map .take ++ .keep p target :: tasks := by
                  rw [List.filterMap_append, filterMap_task?_route, List.filterMap_cons, htodo]
                  rfl
                obtain ⟨rest, hrest, hout⟩ := hnext _ htasks
                exact ⟨_, .definition hfragment hunseen hlocate hlazy hrest,
                  by rw [hout, after_after]⟩
              · rename_i hlazy
                cases h
                obtain ⟨rest, hrest, hout⟩ := hnext todo htodo
                exact ⟨rest, .inPlace hfragment hunseen hlocate (by simpa using hlazy) hrest, hout⟩
          · rename_i hmet
            cases h
            obtain ⟨rest, hrest, hout⟩ := hnext todo htodo
            exact ⟨rest, .again hfragment hmet hrest, hout⟩

theorem Runs.goesFrom {stage : Stage} {out : Trace Progress} (h : d.Runs document stage out) :
    d.GoesFrom document stage out := by
  induction h with
  | ended hend => exact goesFrom_of_ended hend
  | moved hmove _ ih => exact goesFrom_of_moved hmove ih

/-- **What a document comes to is the course of the route of its root.** -/
theorem goes_follow (d : Dialect) (document : Json) :
    d.Goes document (d.route .schema .root [] document) (.start document) (d.follow document) := by
  obtain ⟨rest, hrest, hout⟩ := (d.runs_follow document).goesFrom _
    (filterMap_task?_route document .schema .root [])
  have hrest' : rest.after (d.firstStage document).events = rest := rfl
  rw [hrest'] at hout
  rw [hout]
  exact hrest

end Dialect

end Relayout
