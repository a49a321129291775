/-
  Relayout/Proofs/Migration/Interference.lean
  ===========================================
  **Definitions that a run does not touch do not interfere with it.**

  Two documents that differ in an entry of definitions only are migrated in step, as long as no
  object that the run on the first of them comes to has to do with the entry: whatever the other
  has there, however malformed, makes no difference (`Transformer.run_undisturbed`).  The argument
  is a simulation.  `InStep.advance` keeps the runs together for one move and `InStep.result` to
  their end; each follows references in its own document.  What they gathered on the way is put
  back in both outputs at the same places (`Json.Varies.splice`).
-/
import Relayout.Proofs.Migration.Abreast

namespace Relayout

/-- How far references have been followed in two runs that are in step. -/
structure Progress.Together (a b : Json) (gap : Place) (document document' : Json)
    (s s' : Progress) : Prop where
  unseen : ∀ ref ∈ document.refTexts, ref ∈ document'.refTexts → (ref ∈ s'.unseen ↔ ref ∈ s.unseen)
  reached : s'.reached = s.reached
  arena : List.Forall₂ (Json.Matched a b gap) s.arena s'.arena

namespace Progress.Together

variable {a b document document' : Json} {gap : Place} {s s' : Progress}

theorem start : Together a b gap document document' (.start document) (.start document') where
  unseen := by
    intro ref href href'
    simp [Progress.start, href, href']
  reached := rfl
  arena := .nil

theorem meet (h : Together a b gap document document' s s') (ref : String) :
    Together a b gap document document' (s.meet ref) (s'.meet ref) where
  unseen := by
    intro other hother hother'
    simp only [Progress.meet, List.mem_filter, h.unseen other hother hother']
  reached := h.reached
  arena := h.arena

theorem reach (h : Together a b gap document document' s s') (ref : String) :
    Together a b gap document document' (s.reach ref) (s'.reach ref) where
  unseen := h.unseen
  reached := by rw [Progress.reach, Progress.reach, h.reached]
  arena := h.arena

theorem store (h : Together a b gap document document' s s') {p : Pointer} {x y : Json}
    (hxy : Json.Counterparts a b gap p.place x y) :
    Together a b gap document document' (s.store p x) (s'.store p y) where
  unseen := h.unseen
  reached := h.reached
  arena := List.rel_append h.arena (.cons ⟨rfl, hxy⟩ .nil)

end Progress.Together

/-- The references that are left to follow stand in the document. -/
def KnownRefs (document : Json) (tasks : List Task) : Prop :=
  ∀ step ref, .take step ∈ tasks → step.ref? = some ref → ref ∈ document.refTexts

theorem KnownRefs.of_cons {document : Json} {task : Task} {tasks : List Task}
    (h : KnownRefs document (task :: tasks)) : KnownRefs document tasks :=
  fun step ref hstep href => h step ref (List.mem_cons_of_mem _ hstep) href

theorem knownRefs_survey (d : Dialect) {document target : Json} (p : Pointer) {place : Place}
    (hat : document.at? place = some target) :
    KnownRefs document ((d.survey .schema p target).map .take) := by
  intro step ref hstep href
  have hmem : ref ∈ (d.survey .schema p target).filterMap Step.ref? := by
    refine List.mem_filterMap.2 ⟨step, ?_, href⟩
    simpa using hstep
  rw [Dialect.filterMap_ref?_survey d p place .schema target] at hmem
  exact Json.refTexts_subset_of_at? hat (target.visits_ref?_subset_refTexts .schema place hmem)

theorem KnownRefs.visit {d : Dialect} {document target : Json} {p : Pointer} {tasks : List Task}
    (h : KnownRefs document tasks) (hat : document.at? p.place = some target) :
    KnownRefs document ((d.survey .schema p target).map .take ++ .keep p target :: tasks) := by
  intro step ref hstep href
  rcases List.mem_append.1 hstep with htarget | hrest
  · exact knownRefs_survey d p hat step ref htarget href
  · exact h step ref (by simpa using hrest) href

/-- Two runs that are in step: the first has jobs and a progress, the second is at a stage. -/
structure Dialect.InStep (d : Dialect) (a b : Json) (map : Place) (key : String)
    (document document' : Json) (jobs : List Job) (s : Progress) (stage' : Stage) : Prop where
  todo : d.Abreast a b map key jobs stage'.todo
  progress : s.Together a b (map ++ [key]) document document' stage'.progress
  untouched : ∀ visit, d.Enters document jobs s visit → ¬ visit.Touches d.table map key
  refs : KnownRefs document (jobs.filterMap Job.task?)
  refs' : KnownRefs document' stage'.todo

/-- Two runs end alike. -/
inductive Dialect.EndsAlike (a b : Json) (gap : Place) (document document' : Json) :
    Except MigrationError Progress → Except MigrationError Progress → Prop where
  | error (e : MigrationError) : EndsAlike a b gap document document' (.error e) (.error e)
  | ok {s s' : Progress} : s.Together a b gap document document' s' →
    EndsAlike a b gap document document' (.ok s) (.ok s')

/-- Two runs end alike, or they are in step after one move of each. -/
inductive Dialect.MovesAlike (d : Dialect) (a b : Json) (map : Place) (key : String)
    (document document' : Json) : Trace Progress ⊕ Stage → Trace Progress ⊕ Stage → Prop where
  | ended {out out' : Trace Progress} :
    EndsAlike a b (map ++ [key]) document document' out.result out'.result →
      MovesAlike d a b map key document document' (.inl out) (.inl out')
  | moved {jobs : List Job} {s : Progress} {stage' : Stage} (events : List Event) :
    d.InStep a b map key document document' jobs s stage' →
      MovesAlike d a b map key document document' (.inr ⟨jobs.filterMap Job.task?, s, events⟩)
        (.inr stage')

namespace Dialect

variable {d : Dialect} {a b document document' : Json} {word key : String} {above : Place}
  {entries : Members}

/-- A reference that does not lead into the place leads to counterparts, or nowhere. -/
theorem locate?_cases {gap : Place} (h : a.Varies b gap document document') {ref : String}
    {source : Pointer} (havoids : (Step.follow ref source).Avoids gap) {fragment : String}
    (hfragment : internalFragment? ref = some fragment) :
    (locate? document fragment = none ∧ locate? document' fragment = none) ∨
      ∃ p x y, locate? document fragment = some (p, x) ∧
        locate? document' fragment = some (p, y) ∧ document.at? p.place = some x ∧
        document'.at? p.place = some y ∧ ¬ gap <+: p.place ∧
        Json.Counterparts a b gap p.place x y := by
  unfold locate?
  cases hpointer : fragmentPointer? fragment with
  | none => exact Or.inl ⟨rfl, rfl⟩
  | some p =>
    have hp : Pointer.ofRef? ref = some p := by simp [Pointer.ofRef?, hfragment, hpointer]
    have hnot : ¬ gap <+: p.place := havoids ref p rfl hp
    simp only [Option.bind_eq_bind, Option.bind_some, Json.find?_eq_at?]
    rcases h.at?_cases hnot with ⟨hx, hy⟩ | ⟨x, y, hx, hy, hxy⟩
    · rw [hx, hy]
      exact Or.inl ⟨rfl, rfl⟩
    · rw [hx, hy]
      exact Or.inr ⟨p, x, y, rfl, rfl, hx, hy, hnot, hxy⟩

variable (hword : word = "definitions" ∨ word = "$defs")
  (hdocument : a.Varies b (above ++ [word] ++ [key]) document document')
  (hmap : document.at? (above ++ [word]) = some (.obj entries))

include hword hdocument hmap

theorem InStep.advance_follow {ref : String} {source : Pointer} {jobs : List Job}
    {tasks : List Task} {s s' : Progress} {events events' : List Event}
    (h : d.InStep a b (above ++ [word]) key document document'
      (.take (.follow ref source) :: jobs) s ⟨.take (.follow ref source) :: tasks, s', events'⟩)
    (havoids : (Step.follow ref source).Avoids (above ++ [word] ++ [key]))
    (htodo : d.Abreast a b (above ++ [word]) key jobs tasks) :
    d.MovesAlike a b (above ++ [word]) key document document'
      (d.advance document
        ⟨(Job.take (.follow ref source) :: jobs).filterMap Job.task?, s, events⟩)
      (d.advance document' ⟨.take (.follow ref source) :: tasks, s', events'⟩) := by
  obtain ⟨-, hprogress, huntouched, hrefs, hrefs'⟩ := h
  dsimp only at hprogress hrefs'
  -- the runs go on with what is left when the reference is not followed into definitions
  have hgoOn {s s' : Progress} {events events' : List Event}
      (hprogress : s.Together a b (above ++ [word] ++ [key]) document document' s')
      (henters : ∀ visit, d.Enters document jobs s visit →
        d.Enters document (.take (.follow ref source) :: jobs) _ visit) :
      d.MovesAlike a b (above ++ [word]) key document document'
        (.inr ⟨jobs.filterMap Job.task?, s, events⟩) (.inr ⟨tasks, s', events'⟩) :=
    .moved events ⟨htodo, hprogress, fun visit hvisit => huntouched visit (henters visit hvisit),
      hrefs.of_cons, hrefs'.of_cons⟩
  have hunseen : ref ∈ s'.unseen ↔ ref ∈ s.unseen :=
    hprogress.unseen ref (hrefs _ ref List.mem_cons_self rfl) (hrefs' _ ref List.mem_cons_self rfl)
  have htasks : (Job.take (.follow ref source) :: jobs).filterMap Job.task?
      = .take (.follow ref source) :: jobs.filterMap Job.task? := rfl
  rw [htasks]
  unfold Dialect.advance
  cases hfragment : internalFragment? ref with
  | none =>
    simp only [hfragment]
    exact hgoOn hprogress (fun _ henters => .external hfragment henters)
  | some fragment =>
    simp only [hfragment, hunseen]
    by_cases hmem : ref ∈ s.unseen
    · rw [if_pos hmem, if_pos hmem]
      rcases locate?_cases hdocument havoids hfragment with
        ⟨hnone, hnone'⟩ | ⟨p, x, y, hlocate, hlocate', hx, hy, hnot, hxy⟩
      · simp only [hnone, hnone']
        exact .ended (.error _)
      · simp only [hlocate, hlocate']
        cases hlazy : p.isLazy with
        | false =>
          exact hgoOn (hprogress.meet ref)
            (fun _ henters => .inPlace hfragment hmem hlocate hlazy henters)
        | true =>
          -- both runs begin the visit of a definition
          have htarget := Json.abreast_target hword hmap hx hnot hxy htodo
          have hjobs : (d.route .schema p p.place x ++ .keep p x :: jobs).filterMap Job.task?
              = (d.survey .schema p x).map .take ++ .keep p x :: jobs.filterMap Job.task? := by
            rw [List.filterMap_append, filterMap_task?_route]
            rfl
          simp only [if_true]
          rw [← hjobs]
          refine .moved _ ⟨htarget, (hprogress.meet ref).reach ref, ?_, ?_, hrefs'.of_cons.visit hy⟩
          · intro visit henters
            exact huntouched visit (.definition hfragment hmem hlocate hlazy henters)
          · rw [hjobs]
            exact hrefs.of_cons.visit hx
    · rw [if_neg hmem, if_neg hmem]
      exact hgoOn hprogress (fun _ henters => .again hfragment hmem henters)

/-- **One move keeps two runs in step.** -/
theorem InStep.advance {jobs : List Job} {s : Progress} {stage' : Stage}
    (h : d.InStep a b (above ++ [word]) key document document' jobs s stage')
    (events : List Event) :
    d.MovesAlike a b (above ++ [word]) key document document'
      (d.advance document ⟨jobs.filterMap Job.task?, s, events⟩)
      (d.advance document' stage') := by
  obtain ⟨tasks, s', events'⟩ := stage'
  obtain ⟨htodo, hprogress, huntouched, hrefs, hrefs'⟩ := h
  dsimp only at htodo hprogress hrefs'
  induction jobs with
  | nil =>
    cases htodo
    exact .ended (.ok hprogress)
  | cons job jobs ih =>
    cases htodo with
    | enter htodo =>
      -- a mark is passed by the first run alone
      apply ih htodo _ hrefs
      intro visit henters
      exact huntouched visit (.past henters)
    | strays _ _ htouches => exact absurd htouches (huntouched _ (.here _ _ _))
    | @keep p target target' _ tasks hcounterparts htodo =>
      refine .moved events ⟨htodo, hprogress.store hcounterparts, ?_, hrefs.of_cons, hrefs'.of_cons⟩
      intro visit henters
      exact huntouched visit (.keep henters)
    | @take step _ tasks havoids htodo =>
      cases step with
      | note event =>
        refine .moved _ ⟨htodo, hprogress, ?_, hrefs.of_cons, hrefs'.of_cons⟩
        intro visit henters
        exact huntouched visit (.note henters)
      | fail error => exact .ended (.error error)
      | follow ref source =>
        apply InStep.advance_follow hword hdocument hmap _ havoids htodo
        exact ⟨.take havoids htodo, hprogress, huntouched, hrefs, hrefs'⟩

/-- Runs that are in step end alike. -/
theorem InStep.result {jobs : List Job} {s : Progress} {stage' : Stage}
    (h : d.InStep a b (above ++ [word]) key document document' jobs s stage')
    {events : List Event} {out out' : Trace Progress}
    (hruns : d.Runs document ⟨jobs.filterMap Job.task?, s, events⟩ out)
    (hruns' : d.Runs document' stage' out') :
    EndsAlike a b (above ++ [word] ++ [key]) document document' out.result out'.result := by
  generalize hstage : (⟨jobs.filterMap Job.task?, s, events⟩ : Stage) = stage at hruns
  induction hruns generalizing jobs s stage' events with
  | ended hend =>
    subst hstage
    have hmoves := h.advance hword hdocument hmap events
    rw [hend] at hmoves
    generalize hnext : d.advance document' stage' = next' at hmoves
    cases hmoves with
    | ended halike =>
      cases hruns' with
      | ended hend' =>
        rw [hnext] at hend'
        cases hend'
        exact halike
      | moved hmove' _ =>
        rw [hnext] at hmove'
        cases hmove'
  | moved hmove _ ih =>
    subst hstage
    have hmoves := h.advance hword hdocument hmap events
    rw [hmove] at hmoves
    generalize hnext : d.advance document' stage' = next' at hmoves
    cases hmoves with
    | moved _ hstep =>
      cases hruns' with
      | ended hend' =>
        rw [hnext] at hend'
        cases hend'
      | moved hmove' hrest' =>
        rw [hnext] at hmove'
        cases hmove'
        exact ih hstep hrest' rfl

section Untouched

variable (huntouched : ∀ visit, d.ComesTo document visit →
  ¬ visit.Touches d.table (above ++ [word]) key)

include huntouched

theorem endsAlike_follow :
    EndsAlike a b (above ++ [word] ++ [key]) document document' (d.follow document).result
      (d.follow document').result := by
  have hvaries := hdocument
  rw [List.append_assoc] at hvaries
  have hjobs := filterMap_task?_route (d := d) document .schema .root []
  have hstart : d.InStep a b (above ++ [word]) key document document'
      (d.route .schema .root [] document) (.start document) (d.firstStage document') := by
    refine ⟨hvaries.abreast hword hmap .schema .root [], .start, huntouched, ?_, ?_⟩
    · rw [hjobs]
      exact knownRefs_survey d .root (Json.at?_nil document)
    · exact knownRefs_survey d .root (Json.at?_nil document')
  have hruns : d.Runs document ⟨(d.route .schema .root [] document).filterMap Job.task?,
      .start document, []⟩ (d.follow document) := by
    rw [hjobs]
    exact d.runs_follow document
  exact hstart.result hword hdocument hmap hruns (d.runs_follow document')

/-- The root is migrated to values that vary at the entry. -/
theorem varies_migrate {m : Migration} (h : (d.walk document).result = .ok m) :
    a.Varies b (above ++ [word] ++ [key]) (d.migrate .schema document)
      (d.migrate .schema document') := by
  have hvisits : ∀ visit ∈ document.visits .schema [],
      ¬ visit.Touches d.table ([] ++ (above ++ [word])) key := by
    intro visit hvisit
    exact huntouched visit ((comesTo_iff_of_walk h).2 (Or.inl hvisit))
  obtain ⟨hmapped, hkept⟩ := Json.settled_of_untouched hmap hvisits
  rw [List.append_assoc] at hdocument ⊢
  exact hdocument.treat hword hmap hmapped hkept

/-- Two walks fail alike, or reach the same definitions and give schemas that vary at the entry. -/
theorem walk_undisturbed :
    (∃ e, (d.walk document).result = .error e ∧ (d.walk document').result = .error e) ∨
      ∃ schema schema' resolved, (d.walk document).result = .ok ⟨schema, resolved⟩ ∧
        (d.walk document').result = .ok ⟨schema', resolved⟩ ∧
        a.Varies b (above ++ [word] ++ [key]) schema schema' := by
  have halike := endsAlike_follow hword hdocument hmap huntouched
  generalize hfollow : (d.follow document).result = result at halike
  generalize hfollow' : (d.follow document').result = result' at halike
  cases halike with
  | error e =>
    left
    refine ⟨e, ?_, ?_⟩
    · simp [walk_eq, Trace.bind, hfollow]
    · simp [walk_eq, Trace.bind, hfollow']
  | @ok s s' htogether =>
    right
    have hwalk : (d.walk document).result
        = .ok ⟨(splice (byDepth s.arena) (d.migrate .schema document)).2, s.reached⟩ := by
      simp [walk_eq, Trace.bind, hfollow, Trace.after, finish]
    have hwalk' : (d.walk document').result
        = .ok ⟨(splice (byDepth s'.arena) (d.migrate .schema document')).2, s'.reached⟩ := by
      simp [walk_eq, Trace.bind, hfollow', Trace.after, finish]
    rw [htogether.reached] at hwalk'
    refine ⟨_, _, _, hwalk, hwalk', ?_⟩
    have hroot := varies_migrate hword hdocument hmap huntouched hwalk
    exact hroot.splice (Json.forall₂_byDepth htogether.arena)

end Untouched

end Dialect

namespace Transformer

/-- Without a check of its input a run is a walk that gives the result an identity. -/
theorem result_run_of_validator_eq_none {t : Transformer} (hvalidator : t.validator = none)
    (document : Json) :
    (t.run document).result = (t.dialect.walk document).result.map
      (fun m => { m with schema := m.schema.stamped t.rootId }) := by
  rw [run, precheck, hvalidator, Trace.after_result]
  cases hwalk : (t.dialect.walk document).result with
  | error e => simp [Trace.bind, hwalk, Except.map]
  | ok m => simp [Trace.bind, hwalk, Except.map, Trace.after]

/-- **Unreached definitions do not interfere.**  Put any value at an entry of definitions: if no
    object that the run comes to touches the entry, both runs fail with the same error, or both
    follow the same references and give the same schema but for the entry, at which either has
    what its own input has. -/
theorem run_undisturbed {t : Transformer} (hvalidator : t.validator = none)
    {document document' v : Json} {p : Pointer} {above : Place} {word key : String}
    {entries : Members} (hword : word = "definitions" ∨ word = "$defs")
    (hplace : p.place = above ++ [word] ++ [key])
    (hmap : document.at? (above ++ [word]) = some (.obj entries))
    (hreplace : document.replace? p v = some document')
    (huntouched : ∀ visit, t.dialect.ComesTo document visit →
      ¬ visit.Touches t.dialect.table (above ++ [word]) key) :
    (∃ e, (t.run document).result = .error e ∧ (t.run document').result = .error e) ∨
      ∃ schema schema' resolved, (t.run document).result = .ok ⟨schema, resolved⟩ ∧
        (t.run document').result = .ok ⟨schema', resolved⟩ ∧
        schema.replace? p v = some schema' ∧ schema.find? p = document.find? p ∧
        schema'.find? p = some v := by
  obtain ⟨a, hdocument⟩ := Json.varies_of_replace? hreplace
  rw [result_run_of_validator_eq_none hvalidator, result_run_of_validator_eq_none hvalidator]
  have hvaries := hdocument
  rw [hplace] at hvaries
  rcases Dialect.walk_undisturbed hword hvaries hmap huntouched with
    ⟨e, hwalk, hwalk'⟩ | ⟨schema, schema', resolved, hwalk, hwalk', hschemas⟩
  · exact Or.inl ⟨e, by rw [hwalk]; rfl, by rw [hwalk']; rfl⟩
  · right
    have hstamped : a.Varies v p.place (schema.stamped t.rootId) (schema'.stamped t.rootId) := by
      obtain ⟨name, rest, hcons⟩ := List.exists_cons_of_ne_nil
        (show above ++ [word] ++ [key] ≠ [] by simp)
      rw [hcons] at hschemas
      rw [hplace, hcons]
      exact hschemas.stamped t.rootId
    refine ⟨_, _, resolved, by rw [hwalk]; rfl, by rw [hwalk']; rfl, hstamped.replace?_eq, ?_, ?_⟩
    · rw [Json.find?_eq_at?, Json.find?_eq_at?, hstamped.at?.1, hdocument.at?.1]
    · rw [Json.find?_eq_at?, hstamped.at?.2]

/-- A document with two definitions, of which a reference reaches the first. -/
def spareDocument (spare : Json) : Json :=
  .obj [("properties", .obj [("x", .obj [("$ref", .str "#/definitions/used")])]),
    ("definitions", .obj [("used", .obj [("x-display", .str "card")]), ("spare", spare)])]

/-- What a walk of it gives. -/
def spareMigration (spare : Json) : Migration where
  schema := .obj [("properties", .obj [("x", .obj [("$ref", .str "#/definitions/used")])]),
    ("definitions", .obj [("used", .obj [("layout", .str "card")]), ("spare", spare)])]
  resolved := ["#/definitions/used"]

theorem ofRef?_usedDefinition :
    Pointer.ofRef? "#/definitions/used" = some ⟨["definitions", "used"]⟩ := by decide +kernel

/-- The objects that a run on it comes to, each with its reference. -/
theorem mem_of_comesTo_spareDocument {visit : Visit}
    (h : Dialect.ComesTo ⟨Table.builtin, {}⟩ (spareDocument .null) visit) :
    (visit.place, visit.ref?) ∈ [(["properties", "x"], some "#/definitions/used"), ([], none),
      (["definitions", "used"], none)] := by
  have hwalk : (Dialect.walk ⟨Table.builtin, {}⟩ (spareDocument .null)).result
      = .ok (spareMigration .null) := Trace.result_eq_ok_of_toOption (by decide +kernel)
  rcases h.visited with hroot | ⟨ref, p, target, hreach, hp, hat, hvisit⟩
  · have hmem := List.mem_map_of_mem (f := fun v => (v.place, v.ref?)) hroot
    have hvisits : ((spareDocument .null).visits .schema []).map (fun v => (v.place, v.ref?))
        = [(["properties", "x"], some "#/definitions/used"), ([], none)] := by decide +kernel
    rw [hvisits] at hmem
    exact List.mem_append_left [(["definitions", "used"], none)] hmem
  · rw [← (Dialect.search_of_walk hwalk).mem_iff_reachable] at hreach
    obtain rfl := List.mem_singleton.1 hreach
    rw [ofRef?_usedDefinition, Option.some.injEq] at hp
    subst hp
    have htarget : (spareDocument .null).at? (Pointer.place ⟨["definitions", "used"]⟩)
        = some (.obj [("x-display", .str "card")]) := by decide +kernel
    rw [htarget, Option.some.injEq] at hat
    subst hat
    have hplace : Pointer.place ⟨["definitions", "used"]⟩ = ["definitions", "used"] := by
      decide +kernel
    obtain rfl := List.mem_singleton.1 hvisit
    rw [hplace]
    simp [Visit.ref?, Members.get?]

theorem not_touches_spareDocument {visit : Visit}
    (h : Dialect.ComesTo ⟨Table.builtin, {}⟩ (spareDocument .null) visit) :
    ¬ visit.Touches Table.builtin ["definitions"] "spare" := by
  have hmem := mem_of_comesTo_spareDocument h
  simp only [List.mem_cons, Prod.mk.injEq, List.not_mem_nil, or_false] at hmem
  intro htouches
  cases htouches with
  | map hplace => simp [hplace] at hmem
  | entry hprefix =>
    rcases hmem with ⟨hplace, -⟩ | ⟨hplace, -⟩ | ⟨hplace, -⟩ <;> simp [hplace] at hprefix
  | @value name hclaims hprefix =>
    rcases hmem with ⟨hplace, -⟩ | ⟨hplace, -⟩ | ⟨hplace, -⟩
    · simp [hplace] at hprefix
    · obtain rfl : name = "definitions" := by simpa [hplace] using hprefix
      revert hclaims
      decide
    · simp [hplace] at hprefix
  | @ref ref p href hp hprefix =>
    obtain ⟨-, rfl⟩ : visit.place = ["properties", "x"] ∧ ref = "#/definitions/used" := by
      simpa [href] using hmem
    rw [ofRef?_usedDefinition, Option.some.injEq] at hp
    subst hp
    revert hprefix
    decide +kernel

/-- A definition that no reference reaches may be anything, also what no run could migrate. -/
theorem run_undisturbed_spareDocument :
    (Pointer.mk ["definitions", "spare"]).place = [] ++ ["definitions"] ++ ["spare"] ∧
      (spareDocument .null).at? ([] ++ ["definitions"])
        = some (.obj [("used", .obj [("x-display", .str "card")]), ("spare", .null)]) ∧
      (spareDocument .null).replace? ⟨["definitions", "spare"]⟩ (.obj [("$ref", .null)])
        = some (spareDocument (.obj [("$ref", .null)])) ∧
      (∀ visit, Dialect.ComesTo ⟨Table.builtin, {}⟩ (spareDocument .null) visit →
        ¬ visit.Touches Table.builtin ["definitions"] "spare") ∧
      ((∃ e, (run ⟨⟨Table.builtin, {}⟩, defaultRootId, none⟩ (spareDocument .null)).result
            = .error e ∧
          (run ⟨⟨Table.builtin, {}⟩, defaultRootId, none⟩
            (spareDocument (.obj [("$ref", .null)]))).result = .error e) ∨
        ∃ schema schema' resolved,
          (run ⟨⟨Table.builtin, {}⟩, defaultRootId, none⟩ (spareDocument .null)).result
            = .ok ⟨schema, resolved⟩ ∧
          (run ⟨⟨Table.builtin, {}⟩, defaultRootId, none⟩
            (spareDocument (.obj [("$ref", .null)]))).result = .ok ⟨schema', resolved⟩ ∧
          schema.replace? ⟨["definitions", "spare"]⟩ (.obj [("$ref", .null)]) = some schema' ∧
          schema.find? ⟨["definitions", "spare"]⟩
            = (spareDocument .null).find? ⟨["definitions", "spare"]⟩ ∧
          schema'.find? ⟨["definitions", "spare"]⟩ = some (.obj [("$ref", .null)])) := by
  have hplace : (Pointer.mk ["definitions", "spare"]).place
      = [] ++ ["definitions"] ++ ["spare"] := by decide +kernel
  have hreplace : (spareDocument .null).replace? ⟨["definitions", "spare"]⟩
      (.obj [("$ref", .null)]) = some (spareDocument (.obj [("$ref", .null)])) := by
    decide +kernel
  exact ⟨hplace, rfl, hreplace, fun _ => not_touches_spareDocument,
    run_undisturbed rfl (Or.inl rfl) hplace rfl hreplace (fun _ => not_touches_spareDocument)⟩

end Transformer

end Relayout
