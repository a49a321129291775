/-
  Relayout/Proofs/Migration/Termination.lean
  ==========================================
  **Following references ends, however they run in circles.**

  `Dialect.advance` makes one move of a run: it does the first thing that is left to do.  At
  a reference into the definitions it puts the steps of the target in front of what is left,
  which may make that longer than it ever was, and nothing in it bounds how often or how
  deep this happens.  Still no run goes on forever (`Dialect.wellFounded_advance`): each
  such move takes a reference text of the document for the first time, and between two of
  them what is left gets shorter.

  What a run comes to is what `Dialect.walk` computes (`Dialect.runs_follow`), and the
  definitions whose visits it begins are no more than the texts that stand under the key
  `$ref` (`Dialect.walk_terminates`).
-/
import Relayout.Proofs.Migration.Following
import Relayout.Proofs.Migration.Steps

namespace Relayout

/-- What is left to do in a run: to take a step of a visit, or, where a visit ends, to keep what
    its definition is migrated to. -/
inductive Task where
  | take (step : Step)
  | keep (p : Pointer) (target : Json)

/-- A run under way. -/
structure Stage where
  todo : List Task
  progress : Progress
  events : List Event

/-- The reference whose target is visited from this event on. -/
def Event.visited? : Event → Option String
  | .migratingDefinition ref => some ref
  | _ => none

/-- The references whose targets are visited, in the order in which the visits begin. -/
def visitedBy (events : List Event) : List String := events.filterMap Event.visited?

theorem visitedBy_append (events events' : List Event) :
    visitedBy (events ++ events') = visitedBy events ++ visitedBy events' :=
  List.filterMap_append

/-- The stage in which a document is begun. -/
def Dialect.firstStage (d : Dialect) (document : Json) : Stage :=
  ⟨(d.survey .schema .root document).map .take, .start document, []⟩

namespace Dialect

/-- The next stage of a run, or what the run has come to. -/
def advance (d : Dialect) (document : Json) (stage : Stage) : Trace Progress ⊕ Stage :=
  match stage.todo with
  | [] => .inl ⟨stage.events, .ok stage.progress⟩
  | .keep p target :: todo =>
    .inr ⟨todo, stage.progress.store p (d.migrate .schema target), stage.events⟩
  | .take (.note event) :: todo => .inr ⟨todo, stage.progress, stage.events ++ [event]⟩
  | .take (.fail error) :: _ => .inl ⟨stage.events, .error error⟩
  | .take (.follow ref source) :: todo =>
    match internalFragment? ref with
    | none =>
      .inr ⟨todo, stage.progress, stage.events ++ [.externalRef ref source.fragment]⟩
    | some fragment =>
      if ref ∈ stage.progress.unseen then
        match locate? document fragment with
        | none => .inl ⟨stage.events, .error (.unresolvedRef ref source.fragment)⟩
        | some (p, target) =>
          if p.isLazy then
            .inr ⟨(d.survey .schema p target).map .take ++ .keep p target :: todo,
              (stage.progress.meet ref).reach ref, stage.events ++ [.migratingDefinition ref]⟩
          else .inr ⟨todo, stage.progress.meet ref, stage.events⟩
      else .inr ⟨todo, stage.progress, stage.events⟩

/-- A run from a stage comes to an end. -/
inductive Runs (d : Dialect) (document : Json) : Stage → Trace Progress → Prop where
  | ended {stage : Stage} {out : Trace Progress} :
    d.advance document stage = .inl out → Runs d document stage out
  | moved {stage next : Stage} {out : Trace Progress} :
    d.advance document stage = .inr next → Runs d document next out → Runs d document stage out

variable {d : Dialect} {document : Json}

/-! ### No run goes on forever -/

/-- A move either leaves less to do, or begins the visit of a target whose reference was not met
    before. -/
theorem advance_eq_inr {stage next : Stage} (h : d.advance document stage = .inr next) :
    ∃ task todo, stage.todo = task :: todo ∧
      ((next.todo = todo ∧ next.progress.unseen.length ≤ stage.progress.unseen.length ∧
          next.progress.reached = stage.progress.reached ∧
          (next.events = stage.events ∨ ∃ event, next.events = stage.events ++ [event] ∧
            (event.visited? = none ∨ task = .take (.note event)))) ∨
        ∃ ref p target, ref ∈ stage.progress.unseen ∧
          next = ⟨(d.survey .schema p target).map .take ++ .keep p target :: todo,
            (stage.progress.meet ref).reach ref, stage.events ++ [.migratingDefinition ref]⟩) := by
  obtain ⟨tasks, progress, events⟩ := stage
  cases tasks with
  | nil => cases h
  | cons task todo =>
    refine ⟨task, todo, rfl, ?_⟩
    cases task with
    | keep p target =>
      cases h
      exact Or.inl ⟨rfl, Nat.le_refl _, rfl, Or.inl rfl⟩
    | take step =>
      cases step with
      | note event =>
        cases h
        exact Or.inl ⟨rfl, Nat.le_refl _, rfl, Or.inr ⟨event, rfl, Or.inr rfl⟩⟩
      | fail error => cases h
      | follow ref source =>
        simp only [advance] at h
        split at h
        · cases h
          exact Or.inl ⟨rfl, Nat.le_refl _, rfl, Or.inr ⟨_, rfl, Or.inl rfl⟩⟩
        · split at h
          · rename_i hunseen
            split at h
            · cases h
            · rename_i p target _
              split at h
              · cases h
                exact Or.inr ⟨ref, p, target, hunseen, rfl⟩
              · cases h
                exact Or.inl ⟨rfl, length_unseen_meet_le _ _, rfl, Or.inl rfl⟩
          · cases h
            exact Or.inl ⟨rfl, Nat.le_refl _, rfl, Or.inl rfl⟩

/-- **No run goes on forever**, from whatever stage: the texts not met yet become fewer, or they
    do not become more and less is left to do. -/
theorem wellFounded_advance (d : Dialect) (document : Json) :
    WellFounded (fun next stage => d.advance document stage = .inr next) := by
  refine Subrelation.wf ?_
    (InvImage.wf (fun stage : Stage => (stage.progress.unseen.length, stage.todo.length))
      (Prod.lex Nat.lt_wfRel Nat.lt_wfRel).wf)
  intro next stage h
  obtain ⟨task, todo, htodo, ⟨hnext, hle, -⟩ | ⟨ref, p, target, hunseen, rfl⟩⟩ := advance_eq_inr h
  · have hshorter : next.todo.length < stage.todo.length := by simp [hnext, htodo]
    rcases Nat.lt_or_eq_of_le hle with hlt | heq
    · exact Prod.Lex.left _ _ hlt
    · rw [InvImage, heq]
      exact Prod.Lex.right _ hshorter
  · exact Prod.Lex.left _ _ (Progress.length_unseen_meet_lt hunseen)

theorem Runs.unique {stage : Stage} {out out' : Trace Progress} (h : d.Runs document stage out)
    (h' : d.Runs document stage out') : out = out' := by
  induction h with
  | ended hend =>
    cases h' with
    | ended hend' => exact Sum.inl.inj (hend.symm.trans hend')
    | moved hmove' _ => rw [hend] at hmove'; cases hmove'
  | moved hmove _ ih =>
    cases h' with
    | ended hend' => rw [hmove] at hend'; cases hend'
    | moved hmove' hrest' =>
      rw [hmove] at hmove'
      cases hmove'
      exact ih hrest'

/-! ### What a run comes to -/

/-- A run goes on with what is left to do after a computation, or ends where the computation
    fails. -/
def Continues (d : Dialect) (document : Json) (todo : List Task) (done out : Trace Progress) :
    Prop :=
  match done.result with
  | .ok progress => d.Runs document ⟨todo, progress, done.events⟩ out
  | .error e => out = ⟨done.events, .error e⟩

theorem continues_after_of_ok {todo : List Task} {t out : Trace Progress} {events : List Event}
    {s : Progress} (h : t.result = .ok s) :
    d.Continues document todo (t.after events) out ↔
      d.Runs document ⟨todo, s, events ++ t.events⟩ out := by
  simp [Continues, Trace.after, h]

theorem continues_after_of_error {todo : List Task} {t out : Trace Progress}
    {events : List Event} {e : MigrationError} (h : t.result = .error e) :
    d.Continues document todo (t.after events) out ↔ out = ⟨events ++ t.events, .error e⟩ := by
  simp [Continues, Trace.after, h]

theorem after_after {α : Type} (events events' : List Event) (t : Trace α) :
    (t.after events').after events = t.after (events ++ events') := by
  simp [Trace.after]

/-- After a computation in two parts a run goes on with the second part where the first has
    not failed. -/
theorem continues_bind_of_ok {todo : List Task} {t : Trace Progress}
    {f : Progress → Trace Progress} {events : List Event} {out : Trace Progress} {s : Progress}
    (hs : t.result = .ok s) :
    d.Continues document todo ((t.bind f).after events) out ↔
      d.Continues document todo ((f s).after (events ++ t.events)) out := by
  simp [Trace.bind, hs, after_after]

theorem continues_bind_of_error {todo : List Task} {t : Trace Progress}
    {f : Progress → Trace Progress} {events : List Event} {out : Trace Progress}
    {e : MigrationError} (he : t.result = .error e) :
    d.Continues document todo ((t.bind f).after events) out ↔
      d.Continues document todo (t.after events) out := by
  simp [Trace.bind, he, Continues, Trace.after]

/-- Steps taken with a way to visit definitions that is a run of the steps of their visits. -/
theorem runs_of_takeSteps {visit : Pointer → Json → Progress → Trace Progress} {depth : Nat}
    (hvisit : ∀ p target s events todo out, s.unseen.length < depth →
      d.Continues document todo ((visit p target s).after events) out →
      d.Runs document
        ⟨(d.survey .schema p target).map .take ++ .keep p target :: todo, s, events⟩ out)
    (hunseen : ∀ p target s t, s.unseen.length < depth → (visit p target s).result = .ok t →
      t.unseen.length ≤ s.unseen.length)
    {steps : List Step} {s : Progress} (hdepth : s.unseen.length ≤ depth) {events : List Event}
    {todo : List Task} {out : Trace Progress}
    (h : d.Continues document todo ((takeSteps visit document steps s).after events) out) :
    d.Runs document ⟨steps.map .take ++ todo, s, events⟩ out := by
  induction steps generalizing s events with
  | nil => simpa [Continues, takeSteps, Trace.pure, Trace.after] using h
  | cons step steps ih =>
    cases step with
    | note event =>
      rw [takeSteps, after_after] at h
      exact .moved rfl (ih hdepth h)
    | fail error =>
      rw [takeSteps, continues_after_of_error rfl] at h
      rw [h]
      exact .ended (by simp [advance, Trace.fail])
    | follow ref source =>
      rw [takeSteps] at h
      cases hfragment : internalFragment? ref with
      | none =>
        simp only [hfragment, after_after] at h
        refine .moved ?_ (ih hdepth h)
        simp [advance, hfragment]
      | some fragment =>
        simp only [hfragment] at h
        by_cases hmem : ref ∈ s.unseen
        · rw [if_pos hmem] at h
          cases hlocate : locate? document fragment with
          | none =>
            simp only [hlocate] at h
            rw [continues_after_of_error rfl] at h
            rw [h]
            exact .ended (by simp [advance, hfragment, hmem, hlocate, Trace.fail])
          | some found =>
            obtain ⟨p, target⟩ := found
            simp only [hlocate] at h
            have hlt : (s.meet ref).unseen.length < depth :=
              Nat.lt_of_lt_of_le (Progress.length_unseen_meet_lt hmem) hdepth
            cases hlazy : p.isLazy with
            | false =>
              rw [hlazy] at h
              refine .moved ?_ (ih (Nat.le_of_lt hlt) h)
              simp [advance, hfragment, hmem, hlocate, hlazy]
            | true =>
              rw [hlazy, if_pos rfl, after_after] at h
              have hmove : d.advance document
                  ⟨(Step.follow ref source :: steps).map .take ++ todo, s, events⟩
                  = .inr ⟨(d.survey .schema p target).map .take ++ .keep p target ::
                    (steps.map .take ++ todo), (s.meet ref).reach ref,
                    events ++ [.migratingDefinition ref]⟩ := by
                simp [advance, hfragment, hmem, hlocate, hlazy]
              refine .moved hmove (hvisit p target _ _ _ _ hlt ?_)
              cases hresult : (visit p target ((s.meet ref).reach ref)).result with
              | ok u =>
                rw [continues_bind_of_ok hresult] at h
                rw [continues_after_of_ok hresult]
                have hle : u.unseen.length ≤ (s.meet ref).unseen.length :=
                  hunseen p target ((s.meet ref).reach ref) u hlt hresult
                exact ih (by omega) h
              | error e =>
                rw [continues_bind_of_error hresult, continues_after_of_error hresult] at h
                rwa [continues_after_of_error hresult]
        · rw [if_neg hmem] at h
          refine .moved ?_ (ih hdepth h)
          simp [advance, hfragment, hmem]

/-- Steps taken to a depth of as many visits as there are references not yet met. -/
theorem runs_of_resolve {depth : Nat} {steps : List Step} {s : Progress}
    (hdepth : s.unseen.length ≤ depth) {events : List Event} {todo : List Task}
    {out : Trace Progress}
    (h : d.Continues document todo ((d.resolve document depth steps s).after events) out) :
    d.Runs document ⟨steps.map .take ++ todo, s, events⟩ out := by
  induction depth generalizing steps s events todo out with
  | zero =>
    refine runs_of_takeSteps ?_ ?_ hdepth h
    · intro p target s events todo out hlt
      exact absurd hlt (Nat.not_lt_zero _)
    · intro p target s t hlt
      exact absurd hlt (Nat.not_lt_zero _)
  | succ depth ih =>
    refine runs_of_takeSteps ?_ ?_ hdepth h
    · intro p target s events todo out hlt hvisit
      refine ih (Nat.le_of_lt_succ hlt) ?_
      rw [visitWith] at hvisit
      cases hresult : (d.resolve document depth (d.survey .schema p target) s).result with
      | ok u =>
        rw [continues_bind_of_ok hresult, continues_after_of_ok rfl] at hvisit
        rw [continues_after_of_ok hresult]
        refine .moved rfl ?_
        simpa [Trace.pure] using hvisit
      | error e =>
        rw [continues_bind_of_error hresult, continues_after_of_error hresult] at hvisit
        rwa [continues_after_of_error hresult]
    · intro p target s t hlt hvisit
      rw [visitWith, Trace.bind_result_eq_ok_iff] at hvisit
      obtain ⟨u, hu, hstore⟩ := hvisit
      cases hstore
      exact (followed_of_resolve (Nat.le_of_lt_succ hlt) hu).length_unseen_le

/-- What visiting a document from its root comes to. -/
def follow (d : Dialect) (document : Json) : Trace Progress :=
  d.resolve document (Progress.start document).unseen.length
    (d.survey .schema .root document) (.start document)

/-- What is made of a document when all references have been followed. -/
def finish (d : Dialect) (document : Json) (progress : Progress) : Trace Migration :=
  let (events, schema) := splice (byDepth progress.arena) (d.migrate .schema document)
  ⟨events, .ok ⟨schema, progress.reached⟩⟩

theorem walk_eq (d : Dialect) (document : Json) :
    d.walk document = (d.follow document).bind (d.finish document) := rfl

/-- What a run from the first stage comes to is what is computed for the document. -/
theorem runs_follow (d : Dialect) (document : Json) :
    d.Runs document (d.firstStage document) (d.follow document) := by
  have hend : d.Continues document [] ((d.follow document).after []) (d.follow document) := by
    cases hresult : (d.follow document).result with
    | ok s =>
      rw [continues_after_of_ok hresult]
      exact .ended (by rw [advance, ← hresult, List.nil_append])
    | error e =>
      rw [continues_after_of_error hresult, ← hresult, List.nil_append]
  have hruns := runs_of_resolve (Nat.le_refl _) hend
  rwa [List.append_nil] at hruns

/-! ### The visits that a run begins -/

end Dialect

/-- A step that does not log the beginning of a visit by itself. -/
def Step.Quiet : Step → Prop
  | .note event => event.visited? = none
  | .fail _ | .follow _ _ => True

/-- What is known at every stage of a run about the visits that have begun. -/
structure Stage.Counts (stage : Stage) (bound : Nat) : Prop where
  quiet : ∀ step, Task.take step ∈ stage.todo → step.Quiet
  reached : visitedBy stage.events = stage.progress.reached
  bounded : (visitedBy stage.events).length + stage.progress.unseen.length ≤ bound

namespace Dialect

variable {d : Dialect} {document : Json}

theorem quiet_allLabelSteps (p : Pointer) (i : Nat) (xs : List Json) :
    ∀ step ∈ allLabelSteps p i xs, step.Quiet := by
  intro step hstep
  obtain ⟨event, rfl, ⟨path, label, rfl⟩ | ⟨path, rfl⟩⟩ := exists_note_of_mem_allLabelSteps hstep
  · rfl
  · rfl

theorem quiet_nodeSteps (d : Dialect) (p : Pointer) (node : Members) :
    ∀ step ∈ d.ruleSteps p node ++ refSteps p node, step.Quiet := by
  refine List.forall_mem_append.2 ⟨List.forall_mem_append.2 ⟨?_, ?_⟩, ?_⟩
  · simp [Step.Quiet, Event.visited?]
  · cases (d.mapping p.text node).result <;> simp [Step.Quiet]
  · unfold refSteps
    split <;> simp [Step.Quiet]

theorem quiet_survey (d : Dialect) (role : Role) (p : Pointer) (v : Json) :
    ∀ step ∈ d.survey role p v, step.Quiet := by
  have hnode : ∀ p node,
      (∀ step ∈ d.ruleSteps p node ++ refSteps p node, step.Quiet) ↔ True :=
    fun p node => iff_true_intro (d.quiet_nodeSteps p node)
  exact (d.forall_survey_iff quiet_allLabelSteps hnode v role p []).2 (fun _ _ => trivial)

theorem counts_firstStage (d : Dialect) (document : Json) :
    (d.firstStage document).Counts document.refTexts.eraseDups.length where
  quiet := by
    intro step hstep
    obtain ⟨_, hmem, heq⟩ := List.mem_map.1 hstep
    cases heq
    exact d.quiet_survey _ _ _ _ hmem
  reached := rfl
  bounded := by simp [firstStage, visitedBy, Progress.start]

/-- A move keeps what is known: where it begins a visit, a text is met for the first time. -/
theorem counts_advance {stage next : Stage} {bound : Nat} (hcounts : stage.Counts bound)
    (h : d.advance document stage = .inr next) : next.Counts bound := by
  obtain ⟨hquiet, hreached, hbounded⟩ := hcounts
  obtain ⟨task, todo, htodo, hmove⟩ := advance_eq_inr h
  rw [htodo] at hquiet
  rcases hmove with ⟨hnext, hle, hsame, hevents⟩ | ⟨ref, p, target, hunseen, rfl⟩
  · have hvisited : visitedBy next.events = visitedBy stage.events := by
      rcases hevents with hnone | ⟨event, happend, hevent⟩
      · rw [hnone]
      · have hsilent : event.visited? = none := by
          rcases hevent with hsilent | rfl
          · exact hsilent
          · exact hquiet _ List.mem_cons_self
        rw [happend, visitedBy_append]
        simp [visitedBy, hsilent]
    refine ⟨fun step hstep => hquiet step (List.mem_cons_of_mem _ (hnext ▸ hstep)), ?_, ?_⟩
    · rw [hvisited, hreached, hsame]
    · rw [hvisited]
      omega
  · have hfewer := Progress.length_unseen_meet_lt hunseen
    refine ⟨fun step hstep => ?_, ?_, ?_⟩
    · rcases List.mem_append.1 hstep with hsurvey | hrest
      · obtain ⟨_, hmem, heq⟩ := List.mem_map.1 hsurvey
        cases heq
        exact d.quiet_survey _ _ _ _ hmem
      · rcases List.mem_cons.1 hrest with heq | hrest
        · cases heq
        · exact hquiet step (List.mem_cons_of_mem _ hrest)
    · rw [visitedBy_append, hreached]
      rfl
    · have hone : (visitedBy [.migratingDefinition ref]).length = 1 := rfl
      simp only [visitedBy_append, List.length_append, hone, Progress.reach]
      omega

theorem advance_eq_inl {stage : Stage} {out : Trace Progress}
    (h : d.advance document stage = .inl out) :
    out.events = stage.events ∧ ∀ s, out.result = .ok s → s = stage.progress := by
  unfold advance at h
  split at h
  · cases h
    exact ⟨rfl, fun s hs => (Except.ok.inj hs).symm⟩
  · cases h
  · cases h
  · cases h
    exact ⟨rfl, fun s hs => nomatch hs⟩
  · split at h
    · cases h
    · split at h
      · split at h
        · cases h
          exact ⟨rfl, fun s hs => nomatch hs⟩
        · split at h <;> cases h
      · cases h

/-- The visits that a run begins are counted by the texts that there are, and are those of the
    references that it reaches. -/
theorem Runs.length_visitedBy_le {stage : Stage} {out : Trace Progress}
    (h : d.Runs document stage out) {bound : Nat} (hcounts : stage.Counts bound) :
    (visitedBy out.events).length ≤ bound ∧
      ∀ s, out.result = .ok s → visitedBy out.events = s.reached := by
  induction h with
  | ended hend =>
    obtain ⟨hevents, hresult⟩ := advance_eq_inl hend
    rw [hevents]
    refine ⟨Nat.le_trans (Nat.le_add_right _ _) hcounts.bounded, fun s hs => ?_⟩
    rw [hcounts.reached, hresult s hs]
  | moved hmove _ ih => exact ih (counts_advance hcounts hmove)

theorem visitedBy_splice (arena : List (Pointer × Json)) (document : Json) :
    visitedBy (splice arena document).1 = [] := by
  induction arena generalizing document with
  | nil => rfl
  | cons entry arena ih =>
    obtain ⟨p, v⟩ := entry
    rw [splice]
    split
    · exact ih _
    · exact ih _

/-- Putting definitions back in place begins no visit. -/
theorem visitedBy_walk (d : Dialect) (document : Json) :
    visitedBy (d.walk document).events
      = visitedBy (d.follow document).events := by
  rw [walk_eq, Trace.bind]
  cases hresult : (d.follow document).result with
  | ok s =>
    simp only [Trace.after, visitedBy_append, finish]
    rw [visitedBy_splice, List.append_nil]
  | error e => rfl

/-- **A walk terminates on every document**, and the visits of definitions that it begins, inside
    each other or one after the other, whether or not it succeeds, are no more than the different
    texts that stand under the key `$ref`. -/
theorem walk_terminates (d : Dialect) (document : Json) :
    WellFounded (fun next stage => d.advance document stage = .inr next) ∧
      (∃ out, (∀ out', d.Runs document (d.firstStage document) out' ↔ out' = out) ∧
        d.walk document = out.bind (d.finish document)) ∧
      (visitedBy (d.walk document).events).length
        ≤ document.refTexts.eraseDups.length := by
  have hruns := d.runs_follow document
  refine ⟨d.wellFounded_advance document, ⟨d.follow document, fun out => ?_, d.walk_eq document⟩,
    ?_⟩
  · constructor
    · intro h
      exact h.unique hruns
    · rintro rfl
      exact hruns
  · rw [visitedBy_walk]
    exact (hruns.length_visitedBy_le (d.counts_firstStage document)).1

end Dialect

end Relayout
