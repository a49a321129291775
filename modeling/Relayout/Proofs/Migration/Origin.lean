/-
  Relayout/Proofs/Migration/Origin.lean
  =====================================
  **Whatever a run logs or fails for belongs to an object that it comes to.**

  Each step of a visit is brought by an object of the document: a rule is applied to it, its
  reference is followed, or an element of its `allOf` is given a label (`Step.BroughtBy`).  The
  pointer that the step carries is built on the way down to the object, and leads to it
  (`Dialect.route_induction_at`).  Since an object is entered before any of its steps is taken
  (`Dialect.Owned`), a run that logs an event or fails has come to the object that the event or
  the error belongs to, in the root or inside a definition (`Dialect.accounts_follow`).
-/
import Relayout.Proofs.Json.Address
import Relayout.Proofs.Json.KeyOrder
import Relayout.Proofs.Migration.Course

namespace Relayout

/-- A step is brought by the object at a pointer. -/
inductive Step.BroughtBy (d : Dialect) (p : Pointer) (node : Members) : Step → Prop where
  | own {step : Step} : step ∈ d.ruleSteps p node ++ Dialect.refSteps p node →
    BroughtBy d p node step
  | label {step : Step} {xs : List Json} : node.get? "allOf" = some (.arr xs) →
    step ∈ Dialect.allLabelSteps (p.push "allOf") 0 (d.migrateElements xs) →
    BroughtBy d p node step

/-- A step that is taken logs an event. -/
inductive Step.Logs : Step → Event → Prop where
  | note (event : Event) : Logs (.note event) event
  | external (ref : String) (source : Pointer) :
    Logs (.follow ref source) (.externalRef ref source.fragment)

namespace Dialect

variable {d : Dialect} {document : Json}

/-! ### Routes with their pointers -/

section Located

variable {motive : (Visit → Prop) → List Job → Prop}
  (nil : ∀ known, motive known [])
  (append : ∀ {known jobs jobs'}, motive known jobs → motive known jobs' →
    motive known (jobs ++ jobs'))

include nil append

theorem motive_inTraversalOrder_at {known : Visit → Prop} {p : Pointer} {place : Place}
    {ms : Members}
    (h : ∀ keyword ∈ traversalOrder, ∀ v, ms.get? keyword = some v → motive known
      (d.route (Role.ofKeyword keyword) (p.push keyword) (place ++ [keyword]) v)) :
    motive known (inTraversalOrder (d.routeMembers p place ms)) := by
  unfold inTraversalOrder
  generalize traversalOrder = keywords at h
  induction keywords with
  | nil => exact nil known
  | cons keyword keywords ih =>
    obtain ⟨hkeyword, hrest⟩ := List.forall_mem_cons.1 h
    rw [List.flatMap_cons, lookup_routeMembers]
    apply append _ (ih hrest)
    cases hget : ms.get? keyword with
    | none => exact nil known
    | some v => exact hkeyword v hget

theorem motive_entries_at {known : Visit → Prop} {p : Pointer} {place : Place} {ms : Members}
    (h : ∀ m ∈ ms, motive known (d.route .schema (p.member m.1) (place ++ [m.1]) m.2)) :
    motive known (d.routeEntries p place ms) := by
  induction ms with
  | nil => exact nil known
  | cons m ms ih =>
    obtain ⟨hm, hms⟩ := List.forall_mem_cons.1 h
    exact append hm (ih hms)

theorem motive_elements_at {known : Visit → Prop} {p : Pointer} {place : Place} {i : Nat}
    {xs : List Json}
    (h : ∀ j x, xs[j]? = some x → motive known
      (d.route .schema (p.element (i + j)) (place ++ [toString (i + j)]) x)) :
    motive known (d.routeElements p place i xs) := by
  induction xs generalizing i with
  | nil => exact nil known
  | cons x xs ih =>
    refine append (h 0 x rfl) (ih (fun j y hy => ?_))
    have hindex : i + 1 + j = i + (j + 1) := by omega
    rw [hindex]
    exact h (j + 1) y hy

variable
  (node : ∀ {known jobs} {p : Pointer} {ms : Members}, document.LeadsTo p (.obj ms) →
    motive (fun visit => visit = ⟨p.place, ms⟩ ∨ known visit) jobs →
      motive known (.enter ⟨p.place, ms⟩ :: (d.ruleSteps p ms).map .take ++ jobs ++
        (refSteps p ms).map .take))
  (labels : ∀ {known jobs} {p : Pointer} {ms : Members} {xs : List Json},
    document.LeadsTo p (.obj ms) → known ⟨p.place, ms⟩ → ms.get? "allOf" = some (.arr xs) →
      motive known jobs → motive known
        (jobs ++ (allLabelSteps (p.push "allOf") 0 (d.migrateElements xs)).map .take))

include node labels

/-- What holds of nothing, of two parts in order, around what is under the keywords of an object
    that its pointer leads to, and before notes about the labels of its elements, holds of the
    route of a value in a document without repeated keys.  Known are the objects above. -/
theorem route_induction_at (hdocument : document.WellFormed) {v : Json} {role : Role} {p : Pointer}
    (hv : document.LeadsTo p v) (known : Visit → Prop)
    (howner : role = .labelledList → ∃ (q : Pointer) (ms : Members),
      document.LeadsTo q (.obj ms) ∧ known ⟨q.place, ms⟩ ∧ ms.get? "allOf" = some v ∧
      p = q.push "allOf") :
    motive known (d.route role p p.place v) := by
  induction v using Json.induction_on generalizing role p known with
  | null | bool | num | str => cases role <;> exact nil known
  | arr xs ih =>
    have helements : motive known (d.routeElements p p.place 0 xs) := by
      apply motive_elements_at nil append
      intro j x hx
      rw [Nat.zero_add, ← Pointer.place_element]
      exact ih x (List.mem_of_getElem? hx) (hv.element hx) known (by rintro ⟨⟩)
    cases role with
    | schemaList => exact helements
    | schemaOrList => exact helements
    | labelledList =>
      obtain ⟨q, ms, hq, hknown, hallOf, rfl⟩ := howner rfl
      exact labels hq hknown hallOf helements
    | schema | schemaMap | verbatim => exact nil known
  | obj ms ih =>
    have hself : motive known (.enter ⟨p.place, ms⟩ :: (d.ruleSteps p ms).map .take ++
        inTraversalOrder (d.routeMembers p p.place ms) ++ (refSteps p ms).map .take) := by
      apply node hv
      apply motive_inTraversalOrder_at nil append
      intro keyword hkeyword v hget
      have hplain : ∀ keyword ∈ traversalOrder, Pointer.IsPlain keyword := by decide
      have hplace : (p.push keyword).place = p.place ++ [keyword] := by
        rw [Pointer.place_push, (hplain keyword hkeyword).2]
      rw [← hplace]
      refine ih _ (Members.mem_of_get?_eq_some hget) (hv.push (hplain keyword hkeyword) hget) _ ?_
      intro hrole
      obtain rfl := Treatment.ofKeyword_eq_labelledList hrole
      exact ⟨p, ms, hv, Or.inl rfl, hget, rfl⟩
    cases role with
    | schema => exact hself
    | schemaOrList => exact hself
    | schemaMap =>
      apply motive_entries_at nil append
      intro m hm
      have hget := (Members.get?_eq_some_iff (hdocument.at hv.found).1).2 hm
      rw [← Pointer.place_member]
      exact ih m hm (hv.member hget) known (by rintro ⟨⟩)
    | schemaList | labelledList | verbatim => exact nil known

/-- The visit of a schema, which no labels are noted about, is a case in point. -/
theorem route_induction_schema (hdocument : document.WellFormed) {v : Json} {p : Pointer}
    (hv : document.LeadsTo p v) (known : Visit → Prop) :
    motive known (d.route .schema p p.place v) :=
  route_induction_at nil append node labels hdocument hv known (by rintro ⟨⟩)

end Located

/-! ### Steps and the objects that they belong to -/

/-- Each step is brought by an object that is known or is entered before it. -/
def Owned (d : Dialect) (document : Json) : (Visit → Prop) → List Job → Prop
  | _, [] => True
  | known, .enter visit :: jobs => Owned d document (fun v => v = visit ∨ known v) jobs
  | known, .take step :: jobs =>
    (∃ p node, known ⟨p.place, node⟩ ∧ document.LeadsTo p (.obj node) ∧ step.BroughtBy d p node) ∧
      Owned d document known jobs
  | known, .keep _ _ :: jobs => Owned d document known jobs

theorem Owned.mono {known known' : Visit → Prop} {jobs : List Job}
    (h : d.Owned document known jobs) (hle : ∀ visit, known visit → known' visit) :
    d.Owned document known' jobs := by
  induction jobs generalizing known known' with
  | nil => exact h
  | cons job jobs ih =>
    cases job with
    | enter visit => exact ih h (fun v hv => hv.imp_right (hle v))
    | take step =>
      obtain ⟨⟨p, node, hknown, howner⟩, hrest⟩ := h
      exact ⟨⟨p, node, hle _ hknown, howner⟩, ih hrest hle⟩
    | keep p target =>
      have hrest : d.Owned document known jobs := h
      exact ih hrest hle

theorem Owned.append {known : Visit → Prop} {jobs jobs' : List Job}
    (h : d.Owned document known jobs) (h' : d.Owned document known jobs') :
    d.Owned document known (jobs ++ jobs') := by
  induction jobs generalizing known with
  | nil => exact h'
  | cons job jobs ih =>
    cases job with
    | enter visit => exact ih h (h'.mono (fun _ hv => Or.inr hv))
    | take step => exact ⟨h.1, ih h.2 h'⟩
    | keep p target =>
      have hrest : d.Owned document known jobs := h
      exact ih hrest h'

theorem owned_take {known : Visit → Prop} {steps : List Step} {p : Pointer} {node : Members}
    (hknown : known ⟨p.place, node⟩) (hobject : document.LeadsTo p (.obj node))
    (h : ∀ step ∈ steps, step.BroughtBy d p node) : d.Owned document known (steps.map .take) := by
  induction steps with
  | nil => trivial
  | cons step steps ih =>
    obtain ⟨hstep, hsteps⟩ := List.forall_mem_cons.1 h
    exact ⟨⟨p, node, hknown, hobject, hstep⟩, ih hsteps⟩

theorem owned_node {known : Visit → Prop} {jobs : List Job} {p : Pointer} {ms : Members}
    (hobject : document.LeadsTo p (.obj ms))
    (h : d.Owned document (fun visit => visit = ⟨p.place, ms⟩ ∨ known visit) jobs) :
    d.Owned document known (.enter ⟨p.place, ms⟩ :: (d.ruleSteps p ms).map .take ++ jobs ++
      (refSteps p ms).map .take) := by
  have hown (steps : List Step) (hsteps : steps ⊆ d.ruleSteps p ms ++ refSteps p ms) :
      d.Owned document (fun visit => visit = ⟨p.place, ms⟩ ∨ known visit) (steps.map .take) :=
    owned_take (Or.inl rfl) hobject (fun step hstep => .own (hsteps hstep))
  have hrules := hown (d.ruleSteps p ms) (List.subset_append_left _ _)
  have hrefs := hown (refSteps p ms) (List.subset_append_right _ _)
  exact (hrules.append h).append hrefs

theorem owned_labels {known : Visit → Prop} {jobs : List Job} {p : Pointer} {ms : Members}
    {xs : List Json} (hobject : document.LeadsTo p (.obj ms)) (hknown : known ⟨p.place, ms⟩)
    (hallOf : ms.get? "allOf" = some (.arr xs)) (h : d.Owned document known jobs) :
    d.Owned document known
      (jobs ++ (allLabelSteps (p.push "allOf") 0 (d.migrateElements xs)).map .take) :=
  h.append (owned_take hknown hobject (fun _ hstep => .label hallOf hstep))

theorem owned_route (d : Dialect) (hdocument : document.WellFormed) {v : Json} {p : Pointer}
    (hv : document.LeadsTo p v) (known : Visit → Prop) :
    d.Owned document known (d.route .schema p p.place v) :=
  route_induction_schema (motive := d.Owned document) (fun _ => trivial) Owned.append owned_node
    owned_labels hdocument hv known

/-- The pointer of a target that was located can be written down. -/
theorem leadsTo_of_locate? {fragment : String} {p : Pointer} {target : Json}
    (h : locate? document fragment = some (p, target)) : document.LeadsTo p target := by
  unfold locate? at h
  obtain ⟨q, hq, h⟩ := Option.bind_eq_some_iff.1 h
  obtain ⟨found, hfound, heq⟩ := Option.bind_eq_some_iff.1 h
  cases heq
  exact ⟨Pointer.slashFree_of_ofText? hq, by rw [← Json.find?_eq_at?, hfound]⟩

/-! ### Events and errors -/

/-- A run comes to an object that brings a step. -/
def ComesBy (d : Dialect) (document : Json) (p : Pointer) (node : Members) (step : Step) : Prop :=
  d.ComesTo document ⟨p.place, node⟩ ∧ document.LeadsTo p (.obj node) ∧ step.BroughtBy d p node

/-- What is logged and what is failed for is accounted for by the objects that a run comes to. -/
structure Accounts (d : Dialect) (document : Json) (out : Trace Progress) : Prop where
  events : ∀ event ∈ out.events, (∃ ref, event = .migratingDefinition ref) ∨
    ∃ p node step, d.ComesBy document p node step ∧ step.Logs event
  error : ∀ e, out.result = .error e →
    ∃ p node step, d.ComesBy document p node step ∧ step.FailsWith document e

theorem Accounts.after {out : Trace Progress} (h : d.Accounts document out) {event : Event}
    (hevent : (∃ ref, event = .migratingDefinition ref) ∨
      ∃ p node step, d.ComesBy document p node step ∧ step.Logs event) :
    d.Accounts document (out.after [event]) where
  events := by
    intro other hother
    rcases List.mem_cons.1 hother with rfl | hlater
    · exact hevent
    · exact h.events other hlater
  error := h.error

theorem accounts_fail {p : Pointer} {node : Members} {step : Step} {e : MigrationError}
    (hstep : d.ComesBy document p node step) (hfails : step.FailsWith document e) :
    d.Accounts document (.fail e) where
  events := fun _ hevent => absurd hevent List.not_mem_nil
  error := by
    intro cause hcause
    cases hcause
    exact ⟨p, node, step, hstep, hfails⟩

/-- Jobs that go to an end are accounted for if each step is owned by an object that the run has
    come to, or comes to before. -/
theorem Goes.accounts (hdocument : document.WellFormed) {jobs : List Job} {s : Progress}
    {out : Trace Progress} (h : d.Goes document jobs s out)
    (howned : d.Owned document (d.ComesTo document) jobs)
    (hcomes : ∀ visit, d.Enters document jobs s visit → d.ComesTo document visit) :
    d.Accounts document out := by
  induction h with
  | done s =>
    constructor
    · intro event hevent
      cases hevent
    · intro e he
      cases he
  | @enter visit todo s out _ ih =>
    have hvisit : d.ComesTo document visit := hcomes visit (.here _ _ _)
    have htodo : d.Owned document (fun v => v = visit ∨ d.ComesTo document v) todo := howned
    refine ih (htodo.mono ?_) (fun v hv => hcomes v (.past hv))
    rintro v (rfl | hv)
    · exact hvisit
    · exact hv
  | note _ ih =>
    obtain ⟨⟨p, node, hstep⟩, hrest⟩ := howned
    refine (ih hrest (fun v hv => hcomes v (.note hv))).after (Or.inr ?_)
    exact ⟨p, node, _, hstep, .note _⟩
  | fail e todo s =>
    obtain ⟨⟨p, node, hstep⟩, -⟩ := howned
    exact accounts_fail hstep (.fail e)
  | external hfragment _ ih =>
    obtain ⟨⟨p, node, hstep⟩, hrest⟩ := howned
    refine (ih hrest (fun v hv => hcomes v (.external hfragment hv))).after (Or.inr ?_)
    exact ⟨p, node, _, hstep, .external _ _⟩
  | again hfragment hmet _ ih => exact ih howned.2 (fun v hv => hcomes v (.again hfragment hmet hv))
  | dangling hfragment _ hlocate =>
    obtain ⟨⟨p, node, hstep⟩, -⟩ := howned
    exact accounts_fail hstep (.unresolved _ hfragment hlocate)
  | inPlace hfragment hunseen hlocate hlazy _ ih =>
    exact ih howned.2 (fun v hv => hcomes v (.inPlace hfragment hunseen hlocate hlazy hv))
  | definition hfragment hunseen hlocate hlazy _ ih =>
    refine (ih ?_ ?_).after (Or.inl ⟨_, rfl⟩)
    · exact (d.owned_route hdocument (leadsTo_of_locate? hlocate) _).append howned.2
    · exact fun v hv => hcomes v (.definition hfragment hunseen hlocate hlazy hv)
  | keep _ ih => exact ih howned (fun v hv => hcomes v (.keep hv))

/-- **What following the references of a document logs and fails for** belongs to objects that the
    run comes to, at the pointers that it carries. -/
theorem accounts_follow (d : Dialect) (hdocument : document.WellFormed) :
    d.Accounts document (d.follow document) :=
  (d.goes_follow document).accounts hdocument (d.owned_route hdocument (.root document) _)
    (fun _ hv => hv)

end Dialect

end Relayout
