/-
  Relayout/Proofs/Migration/Route.lean
  ====================================
  **The objects that a run comes to, also when it fails.**

  `Json.visits` lists the objects of a value whether a run gets to them or not.  A route is the
  steps of a visit with a mark where each object is entered, before its own extensions are looked
  at: without the marks it is the survey (`Dialect.filterMap_task?_route`), and what is marked are
  the objects visited (`Dialect.enter_mem_route_iff`).  A run comes to the marks that it passes
  before it ends or fails (`Dialect.ComesTo`), the definitions that it enters on the way included;
  all of them are objects that references lead to (`Dialect.ComesTo.visited`).
-/
import Relayout.Proofs.Migration.Failure
import Relayout.Proofs.Migration.Termination

namespace Relayout

open DepthFirst (Reachable)

/-- What is left to do in a run, with marks where an object is entered. -/
inductive Job where
  | enter (visit : Visit)
  | take (step : Step)
  | keep (p : Pointer) (target : Json)

/-- What there is to do for a job. -/
def Job.task? : Job → Option Task
  | .enter _ => none
  | .take step => some (.take step)
  | .keep p target => some (.keep p target)

namespace Dialect

mutual

/-- The jobs of visiting a value in a role, at a place. -/
def route (d : Dialect) : Role → Pointer → Place → Json → List Job
  | .schema, p, place, .obj ms =>
    .enter ⟨place, ms⟩ :: (d.ruleSteps p ms).map .take ++
      inTraversalOrder (d.routeMembers p place ms) ++ (refSteps p ms).map .take
  | .schemaOrList, p, place, .obj ms =>
    .enter ⟨place, ms⟩ :: (d.ruleSteps p ms).map .take ++
      inTraversalOrder (d.routeMembers p place ms) ++ (refSteps p ms).map .take
  | .schemaMap, p, place, .obj ms => d.routeEntries p place ms
  | .schemaList, p, place, .arr xs => d.routeElements p place 0 xs
  | .schemaOrList, p, place, .arr xs => d.routeElements p place 0 xs
  | .labelledList, p, place, .arr xs =>
    d.routeElements p place 0 xs ++ (allLabelSteps p 0 (d.migrateElements xs)).map .take
  | _, _, _, _ => []

/-- The jobs under each keyword of a schema. -/
def routeMembers (d : Dialect) (p : Pointer) (place : Place) : Members → List (String × List Job)
  | [] => []
  | (k, v) :: ms =>
    (k, d.route (Role.ofKeyword k) (p.push k) (place ++ [k]) v) :: d.routeMembers p place ms

/-- The jobs of visiting members whose values are schemas. -/
def routeEntries (d : Dialect) (p : Pointer) (place : Place) : Members → List Job
  | [] => []
  | (k, v) :: ms => d.route .schema (p.member k) (place ++ [k]) v ++ d.routeEntries p place ms

/-- The jobs of visiting elements that are schemas, from an index on. -/
def routeElements (d : Dialect) (p : Pointer) (place : Place) : Nat → List Json → List Job
  | _, [] => []
  | i, x :: xs =>
    d.route .schema (p.element i) (place ++ [toString i]) x ++ d.routeElements p place (i + 1) xs

end

variable {d : Dialect}

/-! ### Routes, surveys and visits -/

theorem lookup_routeMembers (d : Dialect) (p : Pointer) (place : Place) (ms : Members)
    (keyword : String) :
    (d.routeMembers p place ms).lookup keyword = (ms.get? keyword).map
      (d.route (Role.ofKeyword keyword) (p.push keyword) (place ++ [keyword])) :=
  Members.lookup_eq_map_get? (d.routeMembers p place)
    (fun key => d.route (Role.ofKeyword key) (p.push key) (place ++ [key])) rfl
    (fun _ _ _ => rfl) ms keyword

section Induction

variable {motive : List Job → List Step → List Visit → Prop}
  (nil : motive [] [] [])
  (append : ∀ {jobs jobs' steps steps' visits visits'}, motive jobs steps visits →
    motive jobs' steps' visits' → motive (jobs ++ jobs') (steps ++ steps') (visits ++ visits'))
  (node : ∀ {jobs steps visits} (p : Pointer) (place : Place) (ms : Members),
    motive jobs steps visits →
      motive (.enter ⟨place, ms⟩ :: (d.ruleSteps p ms).map .take ++ jobs ++
          (refSteps p ms).map .take)
        (d.ruleSteps p ms ++ steps ++ refSteps p ms) (visits ++ [⟨place, ms⟩]))
  (labels : ∀ {jobs steps visits} (p : Pointer) (i : Nat) (xs : List Json),
    motive jobs steps visits →
      motive (jobs ++ (allLabelSteps p i xs).map .take) (steps ++ allLabelSteps p i xs) visits)

include nil append

theorem motive_inTraversalOrder (p : Pointer) (place : Place) {ms : Members}
    (h : ∀ m ∈ ms, ∀ role p place,
      motive (d.route role p place m.2) (d.survey role p m.2) (m.2.visits role place)) :
    motive (inTraversalOrder (d.routeMembers p place ms)) (inTraversalOrder (d.surveyMembers p ms))
      (inTraversalOrder (Json.visitsMembers place ms)) := by
  unfold inTraversalOrder
  induction traversalOrder with
  | nil => exact nil
  | cons keyword keywords ih =>
    apply append _ ih
    simp only [lookup_routeMembers, lookup_surveyMembers, Json.lookup_visitsMembers]
    cases hget : ms.get? keyword with
    | none => exact nil
    | some v => exact h _ (Members.mem_of_get?_eq_some hget) _ _ _

theorem motive_entries (p : Pointer) (place : Place) {ms : Members}
    (h : ∀ m ∈ ms, ∀ role p place,
      motive (d.route role p place m.2) (d.survey role p m.2) (m.2.visits role place)) :
    motive (d.routeEntries p place ms) (d.surveyEntries p ms) (Json.visitsEntries place ms) := by
  induction ms with
  | nil => exact nil
  | cons m ms ih =>
    obtain ⟨hm, hms⟩ := List.forall_mem_cons.1 h
    exact append (hm _ _ _) (ih hms)

theorem motive_elements (p : Pointer) (place : Place) (i : Nat) {xs : List Json}
    (h : ∀ x ∈ xs, ∀ role p place,
      motive (d.route role p place x) (d.survey role p x) (x.visits role place)) :
    motive (d.routeElements p place i xs) (d.surveyElements p i xs)
      (Json.visitsElements place i xs) := by
  induction xs generalizing i with
  | nil => exact nil
  | cons x xs ih =>
    obtain ⟨hx, hxs⟩ := List.forall_mem_cons.1 h
    exact append (hx _ _ _) (ih (i + 1) hxs)

include node labels

/-- What holds of nothing, of two parts in order, around what is under the keywords of an object,
    and before notes about labels, holds of the route, the survey and the visits of a value. -/
theorem route_induction (v : Json) (role : Role) (p : Pointer) (place : Place) :
    motive (d.route role p place v) (d.survey role p v) (v.visits role place) := by
  induction v using Json.induction_on generalizing role p place with
  | null | bool | num | str => cases role <;> exact nil
  | arr xs ih =>
    have helements := motive_elements nil append p place 0 ih
    cases role with
    | schemaList => exact helements
    | schemaOrList => exact helements
    | labelledList => exact labels p 0 (d.migrateElements xs) helements
    | schema | schemaMap | verbatim => exact nil
  | obj ms ih =>
    have hnode := node p place ms (motive_inTraversalOrder nil append p place ih)
    cases role with
    | schema => exact hnode
    | schemaOrList => exact hnode
    | schemaMap => exact motive_entries nil append p place ih
    | schemaList | labelledList | verbatim => exact nil

end Induction

theorem filterMap_task?_take (steps : List Step) :
    (steps.map Job.take).filterMap Job.task? = steps.map .take := by
  induction steps with
  | nil => rfl
  | cons step steps ih => simp [Job.task?, ih]

/-- Without its marks a route is the survey. -/
theorem filterMap_task?_route (v : Json) (role : Role) (p : Pointer) (place : Place) :
    (d.route role p place v).filterMap Job.task? = (d.survey role p v).map .take := by
  apply route_induction (motive := fun jobs steps _ => jobs.filterMap Job.task? = steps.map .take)
  · rfl
  · intro _ _ _ _ _ _ h h'
    rw [List.filterMap_append, List.map_append, h, h']
  · intro _ _ _ p place ms h
    simp only [List.filterMap_append, List.filterMap_cons, Job.task?, List.map_append,
      filterMap_task?_take, h, List.cons_append]
  · intro _ _ _ p i xs h
    rw [List.filterMap_append, List.map_append, filterMap_task?_take, h]

/-- The marks of a route are at the objects visited. -/
theorem enter_mem_route_iff (v : Json) (role : Role) (p : Pointer) (place : Place) (visit : Visit) :
    .enter visit ∈ d.route role p place v ↔ visit ∈ v.visits role place := by
  apply route_induction
    (motive := fun jobs _ visits => .enter visit ∈ jobs ↔ visit ∈ visits)
  · simp
  · intro _ _ _ _ _ _ h h'
    rw [List.mem_append, List.mem_append, h, h']
  · intro _ _ _ p place ms h
    simp [h, or_comm]
  · intro _ _ _ p i xs h
    simp [h]

theorem take_mem_route_iff (v : Json) (role : Role) (p : Pointer) (place : Place) (step : Step) :
    .take step ∈ d.route role p place v ↔ step ∈ d.survey role p v := by
  apply route_induction (motive := fun jobs steps _ => .take step ∈ jobs ↔ step ∈ steps)
  · simp
  · intro _ _ _ _ _ _ h h'
    rw [List.mem_append, List.mem_append, h, h']
  · intro _ _ _ p place ms h
    simp [h]
  · intro _ _ _ p i xs h
    simp [h]

/-! ### What a run comes to on its way -/

/-- Doing jobs in order comes to an object before they are done or one fails. -/
inductive Enters (d : Dialect) (document : Json) : List Job → Progress → Visit → Prop where
  | here (visit : Visit) (todo : List Job) (s : Progress) :
    Enters d document (.enter visit :: todo) s visit
  | past {visit other : Visit} {todo : List Job} {s : Progress} :
    Enters d document todo s visit → Enters d document (.enter other :: todo) s visit
  | note {visit : Visit} {event : Event} {todo : List Job} {s : Progress} :
    Enters d document todo s visit → Enters d document (.take (.note event) :: todo) s visit
  | external {visit : Visit} {ref : String} {source : Pointer} {todo : List Job} {s : Progress} :
    internalFragment? ref = none → Enters d document todo s visit →
      Enters d document (.take (.follow ref source) :: todo) s visit
  | again {visit : Visit} {ref fragment : String} {source : Pointer} {todo : List Job}
      {s : Progress} :
    internalFragment? ref = some fragment → ref ∉ s.unseen → Enters d document todo s visit →
      Enters d document (.take (.follow ref source) :: todo) s visit
  | inPlace {visit : Visit} {ref fragment : String} {source p : Pointer} {target : Json}
      {todo : List Job} {s : Progress} :
    internalFragment? ref = some fragment → ref ∈ s.unseen →
      locate? document fragment = some (p, target) → p.isLazy = false →
      Enters d document todo (s.meet ref) visit →
      Enters d document (.take (.follow ref source) :: todo) s visit
  /-- The visit of a definition comes before what is left. -/
  | definition {visit : Visit} {ref fragment : String} {source p : Pointer} {target : Json}
      {todo : List Job} {s : Progress} :
    internalFragment? ref = some fragment → ref ∈ s.unseen →
      locate? document fragment = some (p, target) → p.isLazy = true →
      Enters d document (d.route .schema p p.place target ++ .keep p target :: todo)
        ((s.meet ref).reach ref) visit →
      Enters d document (.take (.follow ref source) :: todo) s visit
  | keep {visit : Visit} {p : Pointer} {target : Json} {todo : List Job} {s : Progress} :
    Enters d document todo (s.store p (d.migrate .schema target)) visit →
      Enters d document (.keep p target :: todo) s visit

/-- A run on a document comes to an object. -/
def ComesTo (d : Dialect) (document : Json) (visit : Visit) : Prop :=
  d.Enters document (d.route .schema .root [] document) (.start document) visit

variable {document : Json} {visit : Visit}

theorem Enters.visited {jobs : List Job} {s : Progress} (h : d.Enters document jobs s visit)
    (hmarks : ∀ visit, .enter visit ∈ jobs → document.Visited visit)
    (hrefs : ∀ ref source, .take (.follow ref source) ∈ jobs → leadsIntoDefinitions ref = true →
      Reachable document.targetRefs document.definitionRefs ref) : document.Visited visit := by
  induction h with
  | here visit => exact hmarks visit List.mem_cons_self
  | past _ ih | note _ ih | external _ _ ih | again _ _ _ ih | inPlace _ _ _ _ _ ih | keep _ ih =>
    apply ih
    · intro visit hmark
      exact hmarks visit (List.mem_cons_of_mem _ hmark)
    · intro ref source hfollow
      exact hrefs ref source (List.mem_cons_of_mem _ hfollow)
  | @definition _ ref fragment source p target todo s hfragment _ hlocate hlazy _ ih =>
    obtain ⟨hpointer, hat⟩ := locate?_eq_some hfragment hlocate
    have hreach := hrefs ref source List.mem_cons_self
      (by rw [leadsIntoDefinitions_eq hpointer, hlazy])
    apply ih
    · intro visit hmark
      rcases List.mem_append.1 hmark with htarget | hrest
      · rw [enter_mem_route_iff] at htarget
        exact Or.inr ⟨ref, p, target, hreach, hpointer, hat, htarget⟩
      · exact hmarks visit (List.mem_cons_of_mem _ (by simpa using hrest))
    · intro found other hfollow hfound
      rcases List.mem_append.1 hfollow with htarget | hrest
      · rw [take_mem_route_iff] at htarget
        have hmem : found ∈ (d.survey .schema p target).filterMap Step.ref? :=
          List.mem_filterMap.2 ⟨_, htarget, rfl⟩
        exact hreach.step
          (mem_targetRefs_of_survey hpointer hat (List.mem_filter.2 ⟨hmem, hfound⟩))
      · exact hrefs found other (List.mem_cons_of_mem _ (by simpa using hrest)) hfound

/-- A run comes to nothing but objects of the root and of definitions that can be reached. -/
theorem ComesTo.visited (h : d.ComesTo document visit) : document.Visited visit := by
  apply Enters.visited h
  · intro visit hmark
    exact Or.inl ((enter_mem_route_iff document .schema .root [] visit).1 hmark)
  · intro ref source hfollow hlazy
    rw [take_mem_route_iff] at hfollow
    have hmem : ref ∈ (d.survey .schema .root document).filterMap Step.ref? :=
      List.mem_filterMap.2 ⟨_, hfollow, rfl⟩
    rw [filterMap_ref?_survey d .root [] .schema document] at hmem
    exact .root (List.mem_filter.2 ⟨hmem, hlazy⟩)

/-! ### Runs that succeed -/

theorem exists_take_of_filterMap_task? {jobs : List Job} {step : Step} {tasks : List Task}
    (h : jobs.filterMap Job.task? = .take step :: tasks) :
    ∃ (marks : List Visit) (todo : List Job), jobs = marks.map .enter ++ .take step :: todo ∧
      todo.filterMap Job.task? = tasks := by
  induction jobs with
  | nil => cases h
  | cons job jobs ih =>
    cases job with
    | enter visit =>
      obtain ⟨marks, todo, rfl, htodo⟩ := ih h
      exact ⟨visit :: marks, todo, rfl, htodo⟩
    | take other =>
      obtain ⟨hstep, htodo⟩ := List.cons.inj h
      cases hstep
      exact ⟨[], jobs, rfl, htodo⟩
    | keep p target => cases (List.cons.inj h).1

theorem exists_marks_of_filterMap_task? {jobs : List Job} (h : jobs.filterMap Job.task? = []) :
    ∃ marks : List Visit, jobs = marks.map .enter := by
  induction jobs with
  | nil => exact ⟨[], rfl⟩
  | cons job jobs ih =>
    cases job with
    | enter visit =>
      obtain ⟨marks, rfl⟩ := ih h
      exact ⟨visit :: marks, rfl⟩
    | take step => cases h
    | keep p target => cases h

theorem Enters.past_all {todo : List Job} {s : Progress} (h : d.Enters document todo s visit)
    (marks : List Visit) : d.Enters document (marks.map .enter ++ todo) s visit := by
  induction marks with
  | nil => exact h
  | cons mark marks ih => exact .past ih

theorem enters_of_mem {marks : List Visit} (h : visit ∈ marks) (todo : List Job) (s : Progress) :
    d.Enters document (marks.map .enter ++ todo) s visit := by
  induction marks with
  | nil => cases h
  | cons mark marks ih =>
    rcases List.mem_cons.1 h with rfl | hrest
    · exact .here _ _ s
    · exact .past (ih hrest)

/-- What jobs that succeed come to, whatever there is to do after them. -/
structure Passes (d : Dialect) (document : Json) (jobs : List Job) (s t : Progress) : Prop where
  marks : ∀ rest visit, .enter visit ∈ jobs → d.Enters document (jobs ++ rest) s visit
  rest : ∀ rest visit, d.Enters document rest t visit → d.Enters document (jobs ++ rest) s visit
  targets : ∀ rest, ∀ ref ∈ t.reached, ref ∈ s.reached ∨
    ∃ p target, Pointer.ofRef? ref = some p ∧ document.at? p.place = some target ∧
      ∀ visit ∈ target.visits .schema p.place, d.Enters document (jobs ++ rest) s visit

theorem passes_marks (marks : List Visit) (s : Progress) :
    d.Passes document (marks.map .enter) s s where
  marks := by
    intro rest visit hmark
    exact enters_of_mem (by simpa using hmark) rest s
  rest := by
    intro rest visit h
    exact h.past_all marks
  targets := by
    intro rest ref href
    exact Or.inl href

/-- A step that succeeds is passed if what comes after it is come to through it. -/
theorem Passes.cons {step : Step} {todo : List Job} {s u t : Progress}
    (h : d.Passes document todo u t) (marks : List Visit)
    (hmove : ∀ rest visit, d.Enters document (todo ++ rest) u visit →
      d.Enters document (.take step :: (todo ++ rest)) s visit)
    (htargets : ∀ rest, ∀ ref ∈ u.reached, ref ∈ s.reached ∨
      ∃ p target, Pointer.ofRef? ref = some p ∧ document.at? p.place = some target ∧
        ∀ visit ∈ target.visits .schema p.place,
          d.Enters document (.take step :: (todo ++ rest)) s visit) :
    d.Passes document (marks.map .enter ++ .take step :: todo) s t where
  marks := by
    intro rest visit hmark
    rw [List.append_assoc, List.cons_append]
    rcases List.mem_append.1 hmark with hhere | hlater
    · exact enters_of_mem (by simpa using hhere) _ s
    · have hmem : .enter visit ∈ todo := by simpa using hlater
      exact (hmove rest visit (h.marks rest visit hmem)).past_all marks
  rest := by
    intro rest visit hrest
    rw [List.append_assoc, List.cons_append]
    exact (hmove rest visit (h.rest rest visit hrest)).past_all marks
  targets := by
    intro rest ref href
    rw [List.append_assoc, List.cons_append]
    rcases h.targets rest ref href with hearlier | ⟨p, target, hp, hat, hvisits⟩
    · apply (htargets rest ref hearlier).imp_right
      rintro ⟨p, target, hp, hat, hvisits⟩
      exact ⟨p, target, hp, hat, fun visit hvisit => (hvisits visit hvisit).past_all marks⟩
    · refine Or.inr ⟨p, target, hp, hat, fun visit hvisit => ?_⟩
      exact (hmove rest visit (hvisits visit hvisit)).past_all marks

/-- A run that does all its jobs comes to all their marks, and to all objects of the definitions
    that it enters. -/
theorem Followed.passes {steps : List Step} {s t : Progress}
    (h : Followed d document steps s t) {jobs : List Job}
    (hjobs : jobs.filterMap Job.task? = steps.map .take) : d.Passes document jobs s t := by
  induction h generalizing jobs with
  | done s =>
    obtain ⟨marks, rfl⟩ := exists_marks_of_filterMap_task? hjobs
    exact passes_marks marks s
  | note _ ih =>
    obtain ⟨marks, todo, rfl, htodo⟩ := exists_take_of_filterMap_task? hjobs
    exact (ih htodo).cons marks (fun _ _ h => .note h) (fun _ _ href => Or.inl href)
  | external hfragment _ ih =>
    obtain ⟨marks, todo, rfl, htodo⟩ := exists_take_of_filterMap_task? hjobs
    exact (ih htodo).cons marks (fun _ _ h => .external hfragment h) (fun _ _ href => Or.inl href)
  | again hfragment hmet _ ih =>
    obtain ⟨marks, todo, rfl, htodo⟩ := exists_take_of_filterMap_task? hjobs
    exact (ih htodo).cons marks (fun _ _ h => .again hfragment hmet h)
      (fun _ _ href => Or.inl href)
  | inPlace hfragment hunseen hlocate hlazy _ ih =>
    obtain ⟨marks, todo, rfl, htodo⟩ := exists_take_of_filterMap_task? hjobs
    exact (ih htodo).cons marks (fun _ _ h => .inPlace hfragment hunseen hlocate hlazy h)
      (fun _ _ href => Or.inl href)
  | @visit ref _ _ p target _ _ _ _ hfragment hunseen hlocate hlazy _ _ ihTarget ihTodo =>
    obtain ⟨marks, todo, rfl, htodo⟩ := exists_take_of_filterMap_task? hjobs
    have htarget := ihTarget (filterMap_task?_route target .schema p p.place)
    refine (ihTodo htodo).cons marks ?_ ?_
    · intro rest visit hlater
      exact .definition hfragment hunseen hlocate hlazy (htarget.rest _ visit (.keep hlater))
    · intro rest other hother
      rcases htarget.targets (.keep p target :: (todo ++ rest)) other hother with
        hearlier | ⟨q, inner, hq, hat, hvisits⟩
      · rcases List.mem_append.1 hearlier with hmet | hhere
        · exact Or.inl hmet
        · -- the definition that is entered here
          obtain rfl := List.mem_singleton.1 hhere
          obtain ⟨hp, hat⟩ := locate?_eq_some hfragment hlocate
          refine Or.inr ⟨p, target, hp, hat, fun visit hvisit => ?_⟩
          rw [← enter_mem_route_iff target .schema p p.place visit] at hvisit
          exact .definition hfragment hunseen hlocate hlazy (htarget.marks _ visit hvisit)
      · refine Or.inr ⟨q, inner, hq, hat, fun visit hvisit => ?_⟩
        exact .definition hfragment hunseen hlocate hlazy (hvisits visit hvisit)

/-- **A run that succeeds comes to all objects of the root and of the definitions that can be
    reached**, and to no others. -/
theorem comesTo_iff_of_walk {m : Migration} (h : (d.walk document).result = .ok m) :
    d.ComesTo document visit ↔ document.Visited visit := by
  constructor
  · exact ComesTo.visited
  · intro hvisited
    obtain ⟨t, ht, hresolved, -⟩ := exists_followed_of_walk h
    have hpasses := ht.passes (filterMap_task?_route document .schema .root [])
    have hroot : d.route .schema .root [] document ++ [] = d.route .schema .root [] document :=
      List.append_nil _
    rcases hvisited with hhere | ⟨ref, p, target, hreach, hp, hat, hvisit⟩
    · have hmark : .enter visit ∈ d.route .schema .root [] document :=
        (enter_mem_route_iff document .schema .root [] visit).2 hhere
      rw [ComesTo, ← hroot]
      exact hpasses.marks [] visit hmark
    · rw [← (search_of_walk h).mem_iff_reachable, hresolved] at hreach
      rcases hpasses.targets [] ref hreach with hstart | ⟨q, other, hq, hat', hvisits⟩
      · cases hstart
      · rw [hp, Option.some.injEq] at hq
        subst hq
        rw [hat, Option.some.injEq] at hat'
        subst hat'
        rw [ComesTo, ← hroot]
        exact hvisits visit hvisit

end Dialect

end Relayout
