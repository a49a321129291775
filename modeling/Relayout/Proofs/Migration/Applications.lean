/-
  Relayout/Proofs/Migration/Applications.lean
  ===========================================
  **Rules are applied object by object, in the order of the table.**

  When an object is entered its rules are applied next, before anything below it is visited.  So
  the applications that a run logs come in groups (`Dialect.exists_applied_follow`): one for each
  object that is entered, with the path of the object and the rules that claim a key of it in the
  order of the table, all of them or, where one fails, those up to it.
-/
import Relayout.Proofs.Migration.Origin

namespace Relayout

/-- The application of a rule that an event logs: the path of the node, and the rule. -/
def Event.application? : Event → Option (String × Rule)
  | .applyingRule path rule => some (path, rule)
  | _ => none

/-- The applications of rules that are logged, in order. -/
def applications (events : List Event) : List (String × Rule) :=
  events.filterMap Event.application?

theorem applications_append (events events' : List Event) :
    applications (events ++ events') = applications events ++ applications events' :=
  List.filterMap_append

theorem applications_cons_of_eq_none {event : Event} (h : event.application? = none)
    (events : List Event) : applications (event :: events) = applications events :=
  List.filterMap_cons_none h

/-- The rules that are applied to an object when it is entered. -/
structure Applied where
  pointer : Pointer
  node : Members
  rules : List Rule

/-- What is logged for them. -/
def Applied.pairs (a : Applied) : List (String × Rule) :=
  a.rules.map (fun rule => (a.pointer.text, rule))

/-- A run comes to the object, its pointer leads to it, and the rules are those that claim a key of
    it in the order of the table, up to some rule. -/
structure Applied.Orderly (d : Dialect) (document : Json) (a : Applied) : Prop where
  found : document.atText? a.pointer.text = some (.obj a.node)
  comesTo : d.ComesTo document ⟨a.pointer.place, a.node⟩
  order : a.rules <+: d.table.applicable a.node

/-! ### Rules of one object -/

theorem Table.applyRules_prefix (s : Site) (rules : List Rule) (layout : LayoutNode) :
    (applyRules s rules layout).1 <+: rules := by
  induction rules generalizing layout with
  | nil => exact List.nil_prefix
  | cons rule rest ih =>
    unfold applyRules
    cases rule.apply s layout with
    | mk layout' error =>
      cases error with
      | none => exact List.prefix_cons_inj rule |>.2 (ih layout')
      | some e => exact List.prefix_cons_inj rule |>.2 List.nil_prefix

theorem Table.applied_prefix (table : Table) (s : Site) :
    (table.map s).applied <+: table.applicable s.node := by
  unfold map
  simp only
  split
  · exact List.nil_prefix
  · split
    · exact List.nil_prefix
    · exact applyRules_prefix s _ _

/-! ### Jobs in groups -/

/-- A job that enters no object and logs no application. -/
def Job.Silent : Job → Prop
  | .enter _ => False
  | .take (.note event) => event.application? = none
  | .take (.fail _) | .take (.follow _ _) | .keep _ _ => True

namespace Dialect

/-- Jobs in which the applications for an object follow its mark at once. Those for an object
    whose mark has been passed are pending. -/
inductive Grouped (d : Dialect) (document : Json) : List (String × Rule) → List Job → Prop where
  | nil : Grouped d document [] []
  | enter {p : Pointer} {node : Members} {rules : List Rule} {todo : List Job} :
    document.LeadsTo p (.obj node) → rules <+: d.table.applicable node →
      Grouped d document (rules.map (fun rule => (p.text, rule))) todo →
      Grouped d document [] (.enter ⟨p.place, node⟩ :: todo)
  | apply {path : String} {rule : Rule} {pending : List (String × Rule)} {todo : List Job} :
    Grouped d document pending todo →
      Grouped d document ((path, rule) :: pending) (.take (.note (.applyingRule path rule)) :: todo)
  | silent {job : Job} {todo : List Job} : job.Silent → Grouped d document [] todo →
    Grouped d document [] (job :: todo)

variable {d : Dialect} {document : Json}

theorem Grouped.append {pending : List (String × Rule)} {jobs jobs' : List Job}
    (h : d.Grouped document pending jobs) (h' : d.Grouped document [] jobs') :
    d.Grouped document pending (jobs ++ jobs') := by
  induction h with
  | nil => exact h'
  | enter hobject horder _ ih => exact .enter hobject horder ih
  | apply _ ih => exact .apply ih
  | silent hsilent _ ih => exact .silent hsilent ih

theorem grouped_take {steps : List Step} (h : ∀ step ∈ steps, (Job.take step).Silent) :
    d.Grouped document [] (steps.map .take) := by
  induction steps with
  | nil => exact .nil
  | cons step steps ih =>
    obtain ⟨hstep, hsteps⟩ := List.forall_mem_cons.1 h
    exact .silent hstep (ih hsteps)

theorem grouped_apply {rest : List Job} (h : d.Grouped document [] rest) (path : String)
    (rules : List Rule) :
    d.Grouped document (rules.map (fun rule => (path, rule)))
      ((rules.map (fun rule => Step.note (.applyingRule path rule))).map .take ++ rest) := by
  induction rules with
  | nil => exact h
  | cons rule rules ih => exact .apply ih

theorem grouped_ruleSteps (d : Dialect) (document : Json) (p : Pointer) (node : Members) :
    d.Grouped document ((d.mapping p.text node).applied.map (fun rule => (p.text, rule)))
      ((d.ruleSteps p node).map .take) := by
  unfold ruleSteps
  rw [List.map_append]
  apply grouped_apply
  apply grouped_take
  cases (d.mapping p.text node).result <;> simp [Job.Silent]

theorem grouped_node {jobs : List Job} {p : Pointer} {ms : Members}
    (hobject : document.LeadsTo p (.obj ms)) (h : d.Grouped document [] jobs) :
    d.Grouped document [] (.enter ⟨p.place, ms⟩ :: (d.ruleSteps p ms).map .take ++ jobs ++
      (refSteps p ms).map .take) := by
  have hrules := d.grouped_ruleSteps document p ms
  have hrefs : d.Grouped document [] ((refSteps p ms).map .take) := by
    apply grouped_take
    unfold refSteps
    split <;> simp [Job.Silent]
  exact .enter hobject (d.table.applied_prefix ⟨p.text, ms, d.detector⟩)
    ((hrules.append h).append hrefs)

theorem grouped_labels {jobs : List Job} (h : d.Grouped document [] jobs) (p : Pointer) (i : Nat)
    (xs : List Json) : d.Grouped document [] (jobs ++ (allLabelSteps p i xs).map .take) := by
  apply h.append
  apply grouped_take
  intro step hstep
  obtain ⟨event, rfl, ⟨path, label, rfl⟩ | ⟨path, rfl⟩⟩ := exists_note_of_mem_allLabelSteps hstep
  · rfl
  · rfl

theorem grouped_route (d : Dialect) (hdocument : document.WellFormed) {v : Json} {p : Pointer}
    (hv : document.LeadsTo p v) : d.Grouped document [] (d.route .schema p p.place v) :=
  route_induction_schema (motive := fun _ jobs => d.Grouped document [] jobs) (fun _ => .nil)
    Grouped.append grouped_node (fun _ _ _ h => grouped_labels h _ _ _) hdocument hv (fun _ => True)

/-! ### Applications in groups -/

/-- The applications of a log are some of those pending, and groups after them. -/
def Groups (d : Dialect) (document : Json) (pending logged : List (String × Rule)) : Prop :=
  ∃ (taken : List (String × Rule)) (parts : List Applied), taken <+: pending ∧
    logged = taken ++ parts.flatMap Applied.pairs ∧ ∀ part ∈ parts, part.Orderly d document

theorem groups_nil (pending : List (String × Rule)) : d.Groups document pending [] :=
  ⟨[], [], List.nil_prefix, rfl, fun _ h => absurd h List.not_mem_nil⟩

theorem Groups.apply {pending logged : List (String × Rule)} (h : d.Groups document pending logged)
    (pair : String × Rule) : d.Groups document (pair :: pending) (pair :: logged) := by
  obtain ⟨taken, parts, htaken, hlogged, hparts⟩ := h
  exact ⟨pair :: taken, parts, (List.prefix_cons_inj pair).2 htaken, by rw [hlogged]; rfl, hparts⟩

/-- What is taken of the applications pending for an object is a group. -/
theorem Groups.enter {p : Pointer} {node : Members} {rules : List Rule}
    {logged : List (String × Rule)} (hobject : document.LeadsTo p (.obj node))
    (hcomes : d.ComesTo document ⟨p.place, node⟩) (horder : rules <+: d.table.applicable node)
    (h : d.Groups document (rules.map (fun rule => (p.text, rule))) logged) :
    d.Groups document [] logged := by
  obtain ⟨taken, parts, htaken, hlogged, hparts⟩ := h
  obtain ⟨begun, hbegun, rfl⟩ := List.prefix_map_iff.1 htaken
  refine ⟨[], ⟨p, node, begun⟩ :: parts, List.nil_prefix, hlogged, ?_⟩
  rw [List.forall_mem_cons]
  exact ⟨⟨hobject.atText?, hcomes, hbegun.trans horder⟩, hparts⟩

theorem Goes.groups (hdocument : document.WellFormed) {jobs : List Job} {s : Progress}
    {out : Trace Progress} (h : d.Goes document jobs s out) {pending : List (String × Rule)}
    (hgrouped : d.Grouped document pending jobs)
    (hcomes : ∀ visit, d.Enters document jobs s visit → d.ComesTo document visit) :
    d.Groups document pending (applications out.events) := by
  induction h generalizing pending with
  | done s => exact groups_nil pending
  | enter _ ih =>
    cases hgrouped with
    | enter hobject horder htodo =>
      have hrest := ih htodo (fun v hv => hcomes v (.past hv))
      exact hrest.enter hobject (hcomes _ (.here _ _ _)) horder
    | silent hsilent _ => exact hsilent.elim
  | note _ ih =>
    cases hgrouped with
    | apply htodo => exact (ih htodo (fun v hv => hcomes v (.note hv))).apply _
    | silent hsilent htodo =>
      have hrest := ih htodo (fun v hv => hcomes v (.note hv))
      rwa [← applications_cons_of_eq_none hsilent] at hrest
  | fail e todo s => exact groups_nil pending
  | external hfragment _ ih =>
    cases hgrouped with
    | silent _ htodo => exact ih htodo (fun v hv => hcomes v (.external hfragment hv))
  | again hfragment hmet _ ih =>
    cases hgrouped with
    | silent _ htodo => exact ih htodo (fun v hv => hcomes v (.again hfragment hmet hv))
  | dangling => exact groups_nil pending
  | inPlace hfragment hunseen hlocate hlazy _ ih =>
    cases hgrouped with
    | silent _ htodo =>
      exact ih htodo (fun v hv => hcomes v (.inPlace hfragment hunseen hlocate hlazy hv))
  | definition hfragment hunseen hlocate hlazy _ ih =>
    cases hgrouped with
    | silent _ htodo =>
      refine ih ?_ (fun v hv => hcomes v (.definition hfragment hunseen hlocate hlazy hv))
      exact (d.grouped_route hdocument (leadsTo_of_locate? hlocate)).append (.silent trivial htodo)
  | keep _ ih =>
    cases hgrouped with
    | silent _ htodo => exact ih htodo (fun v hv => hcomes v (.keep hv))

/-- **The applications that are logged while references are followed** come object by object, each
    time in the order of the table. -/
theorem exists_applied_follow (d : Dialect) (hdocument : document.WellFormed) :
    ∃ parts : List Applied, applications (d.follow document).events = parts.flatMap Applied.pairs ∧
      ∀ part ∈ parts, part.Orderly d document := by
  obtain ⟨taken, parts, htaken, hlogged, hparts⟩ :=
    (d.goes_follow document).groups hdocument (d.grouped_route hdocument (.root document))
      (fun _ hv => hv)
  rw [List.prefix_nil] at htaken
  subst htaken
  exact ⟨parts, hlogged, hparts⟩

end Dialect

end Relayout
