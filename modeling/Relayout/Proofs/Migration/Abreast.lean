/-
  Relayout/Proofs/Migration/Abreast.lean
  ======================================
  **What is left to do in two runs.**

  Two documents that differ in an entry of definitions only give two runs the same things to do, up
  to the first object that has to do with the entry (`Visit.Touches`).  `Dialect.Abreast` says so
  of what is left to do in both.  It holds of a value in which the entry does not lie
  (`Dialect.abreast_route`) and of two values that vary there (`Json.Varies.abreast`), the notes
  about labels included, and visiting a definition keeps to it (`Json.abreast_target`).
-/
import Relayout.Proofs.Migration.Route
import Relayout.Proofs.Migration.Variation

namespace Relayout

/-- A visited object has to do with the entry of definitions under a key of the map at a place: it
    is the map, or in the entry, it has the map in a member that is consumed or in its `$ref`, or
    it refers into the entry. -/
inductive Visit.Touches (table : Table) (map : Place) (key : String) (visit : Visit) : Prop where
  | map : visit.place = map → Touches table map key visit
  | entry : map ++ [key] <+: visit.place → Touches table map key visit
  | value {name : String} : table.recognizes name = true ∨ name = "$ref" →
    visit.place ++ [name] <+: map → Touches table map key visit
  | ref {ref : String} {p : Pointer} : visit.ref? = some ref → Pointer.ofRef? ref = some p →
    map ++ [key] <+: p.place → Touches table map key visit

/-- A step does not follow a reference to a place or below it. -/
def Step.Avoids (place : Place) (step : Step) : Prop :=
  ∀ ref p, step.ref? = some ref → Pointer.ofRef? ref = some p → ¬ place <+: p.place

/-- What is left to do in two runs is the same up to the first object that touches the entry, but
    for what is kept, which varies at the entry. -/
inductive Dialect.Abreast (d : Dialect) (a b : Json) (map : Place) (key : String) :
    List Job → List Task → Prop where
  | done : Abreast d a b map key [] []
  | enter {visit : Visit} {jobs : List Job} {tasks : List Task} :
    Abreast d a b map key jobs tasks → Abreast d a b map key (.enter visit :: jobs) tasks
  | strays {visit : Visit} (jobs : List Job) (tasks : List Task) :
    visit.Touches d.table map key → Abreast d a b map key (.enter visit :: jobs) tasks
  | take {step : Step} {jobs : List Job} {tasks : List Task} : step.Avoids (map ++ [key]) →
    Abreast d a b map key jobs tasks →
      Abreast d a b map key (.take step :: jobs) (.take step :: tasks)
  | keep {p : Pointer} {target target' : Json} {jobs : List Job} {tasks : List Task} :
    Json.Counterparts a b (map ++ [key]) p.place (d.migrate .schema target)
      (d.migrate .schema target') →
    Abreast d a b map key jobs tasks →
      Abreast d a b map key (.keep p target :: jobs) (.keep p target' :: tasks)

namespace Dialect

variable {d : Dialect} {a b : Json} {map : Place} {key : String}

/-! ### Parts in order -/

/-- What comes after an object that touches the entry does not matter. -/
theorem Abreast.append {jobs jobs' : List Job} {tasks tasks' : List Task}
    (h : d.Abreast a b map key jobs tasks)
    (h' : (∀ visit, .enter visit ∈ jobs → ¬ visit.Touches d.table map key) →
      d.Abreast a b map key jobs' tasks') :
    d.Abreast a b map key (jobs ++ jobs') (tasks ++ tasks') := by
  induction h with
  | done =>
    apply h'
    intro visit hmark
    cases hmark
  | @enter visit jobs tasks _ ih =>
    by_cases htouches : visit.Touches d.table map key
    · exact .strays _ _ htouches
    · apply Abreast.enter
      apply ih
      intro huntouched
      apply h'
      intro other hmark
      rcases List.mem_cons.1 hmark with hhere | hlater
      · cases hhere
        exact htouches
      · exact huntouched other hlater
  | strays _ _ htouches => exact .strays _ _ htouches
  | take havoids _ ih =>
    apply Abreast.take havoids
    apply ih
    intro huntouched
    apply h'
    intro other hmark
    exact huntouched other (by simpa using hmark)
  | keep hcounterparts _ ih =>
    apply Abreast.keep hcounterparts
    apply ih
    intro huntouched
    apply h'
    intro other hmark
    exact huntouched other (by simpa using hmark)

theorem abreast_steps {steps : List Step} (h : ∀ step ∈ steps, step.Avoids (map ++ [key])) :
    d.Abreast a b map key (steps.map .take) (steps.map .take) := by
  induction steps with
  | nil => exact .done
  | cons step steps ih =>
    obtain ⟨hstep, hsteps⟩ := List.forall_mem_cons.1 h
    exact .take hstep (ih hsteps)

/-- Steps that follow no reference are taken in both runs. -/
theorem abreast_of_filterMap_ref?_eq_nil {steps : List Step}
    (h : steps.filterMap Step.ref? = []) :
    d.Abreast a b map key (steps.map .take) (steps.map .take) := by
  apply abreast_steps
  intro step hstep ref p href
  have hmem : ref ∈ steps.filterMap Step.ref? := List.mem_filterMap.2 ⟨step, hstep, href⟩
  rw [h] at hmem
  cases hmem

/-- The reference of an object that does not touch the entry is followed in both runs. -/
theorem abreast_refSteps {place : Place} {node : Members}
    (h : ¬ Visit.Touches d.table map key ⟨place, node⟩) (p : Pointer) :
    d.Abreast a b map key ((refSteps p node).map .take) ((refSteps p node).map .take) := by
  apply abreast_steps
  intro step hstep ref q href hq hprefix
  have hmem : ref ∈ (refSteps p node).filterMap Step.ref? :=
    List.mem_filterMap.2 ⟨step, hstep, href⟩
  rw [filterMap_ref?_refSteps p place node] at hmem
  obtain ⟨visit, hvisit, hvisitRef⟩ := List.mem_filterMap.1 hmem
  obtain rfl := List.mem_singleton.1 hvisit
  exact h (.ref hvisitRef hq hprefix)

/-- What an object brings is the same in both runs if its own members are read alike. -/
theorem abreast_node {place : Place} {p : Pointer} {ms ns : Members} {jobs : List Job}
    {steps : List Step} (h : ¬ Visit.Touches d.table map key ⟨place, ms⟩ →
      d.ruleSteps p ns = d.ruleSteps p ms ∧ refSteps p ns = refSteps p ms ∧
        d.Abreast a b map key jobs (steps.map .take)) :
    d.Abreast a b map key
      (.enter ⟨place, ms⟩ :: (d.ruleSteps p ms).map .take ++ jobs ++ (refSteps p ms).map .take)
      ((d.ruleSteps p ns ++ steps ++ refSteps p ns).map .take) := by
  by_cases htouches : Visit.Touches d.table map key ⟨place, ms⟩
  · exact .strays _ _ htouches
  · obtain ⟨hrules, hrefs, hjobs⟩ := h htouches
    rw [hrules, hrefs, List.map_append, List.map_append]
    have hself : d.Abreast a b map key ((d.ruleSteps p ms).map .take)
        ((d.ruleSteps p ms).map .take) :=
      abreast_of_filterMap_ref?_eq_nil (filterMap_ref?_ruleSteps d p ms)
    exact .enter ((hself.append (fun _ => hjobs)).append (fun _ => abreast_refSteps htouches p))

/-- A value is visited in the same way in both runs. -/
theorem abreast_route (v : Json) (role : Role) (p : Pointer) (place : Place) :
    d.Abreast a b map key (d.route role p place v) ((d.survey role p v).map .take) := by
  apply route_induction
    (motive := fun jobs steps _ => d.Abreast a b map key jobs (steps.map .take))
  · exact .done
  · intro _ _ _ _ _ _ h h'
    rw [List.map_append]
    exact h.append (fun _ => h')
  · intro _ _ _ p place ms h
    exact abreast_node (fun _ => ⟨rfl, rfl, h⟩)
  · intro _ _ _ p i xs h
    rw [List.map_append]
    exact h.append (fun _ => abreast_of_filterMap_ref?_eq_nil (filterMap_ref?_allLabelSteps p i xs))

end Dialect

namespace Json

variable {d : Dialect} {a b v w : Json} {map below : Place} {key name : String}

/-! ### Values that vary -/

section Parts

variable {start : Place} {ms ns : Members} {xs ys : List Json}

theorem Varies.abreast_members (h : Varies a b (name :: below) (.obj ms) (.obj ns)) (p : Pointer)
    (hchild : ∀ x y, ms.get? name = some x → ns.get? name = some y → Varies a b below x y →
      d.Abreast a b map key (d.route (Role.ofKeyword name) (p.push name) (start ++ [name]) x)
        ((d.survey (Role.ofKeyword name) (p.push name) y).map .take)) :
    d.Abreast a b map key (Dialect.inTraversalOrder (d.routeMembers p start ms))
      ((Dialect.inTraversalOrder (d.surveyMembers p ns)).map .take) := by
  unfold Dialect.inTraversalOrder
  induction traversalOrder with
  | nil => exact .done
  | cons keyword keywords ih =>
    rw [List.flatMap_cons, List.flatMap_cons, List.map_append]
    refine Dialect.Abreast.append ?_ (fun _ => ih)
    rw [Dialect.lookup_routeMembers, Dialect.lookup_surveyMembers]
    by_cases hname : name = keyword
    · subst hname
      obtain ⟨⟨x, y, hx, hy, hxy⟩, -⟩ := h.child?
      have hms : ms.get? name = some x := hx
      have hns : ns.get? name = some y := hy
      rw [hms, hns]
      exact hchild x y hms hns hxy
    · rw [h.get?_eq hname]
      cases ms.get? keyword with
      | none => exact .done
      | some x => exact d.abreast_route x _ _ _

theorem Varies.abreast_entries (h : Varies a b (name :: below) (.obj ms) (.obj ns)) (p : Pointer)
    (hchild : ∀ x y, ms.get? name = some x → ns.get? name = some y → Varies a b below x y →
      d.Abreast a b map key (d.route .schema (p.member name) (start ++ [name]) x)
        ((d.survey .schema (p.member name) y).map .take)) :
    d.Abreast a b map key (d.routeEntries p start ms) ((d.surveyEntries p ns).map .take) := by
  have hself (ms : Members) :
      d.Abreast a b map key (d.routeEntries p start ms) ((d.surveyEntries p ms).map .take) :=
    d.abreast_route (.obj ms) .schemaMap p start
  cases h with
  | @member pre post _ _ x y hpre hxy =>
    have hmember := hchild x y (by simp [Members.get?_append_cons hpre])
      (by simp [Members.get?_append_cons hpre]) hxy
    clear hchild hpre
    induction pre with
    | nil =>
      rw [List.nil_append, List.nil_append, Dialect.routeEntries, Dialect.surveyEntries,
        List.map_append]
      exact hmember.append (fun _ => hself post)
    | cons m pre ih =>
      obtain ⟨k, u⟩ := m
      rw [List.cons_append, List.cons_append, Dialect.routeEntries, Dialect.surveyEntries,
        List.map_append]
      exact (d.abreast_route u _ _ _).append (fun _ => ih)

theorem abreast_routeElements (xs : List Json) (p : Pointer) (start : Place) (i : Nat) :
    d.Abreast a b map key (d.routeElements p start i xs) ((d.surveyElements p i xs).map .take) := by
  induction xs generalizing i with
  | nil => exact .done
  | cons x xs ih =>
    rw [Dialect.routeElements, Dialect.surveyElements, List.map_append]
    exact (d.abreast_route x _ _ _).append (fun _ => ih (i + 1))

theorem abreast_elements_append {pre post : List Json} {x y : Json} {p : Pointer} {i n : Nat}
    (hn : i + pre.length = n)
    (helement : ∀ q, d.Abreast a b map key (d.route .schema q (start ++ [toString n]) x)
      ((d.survey .schema q y).map .take)) :
    d.Abreast a b map key (d.routeElements p start i (pre ++ x :: post))
      ((d.surveyElements p i (pre ++ y :: post)).map .take) := by
  induction pre generalizing i with
  | nil =>
    obtain rfl : i = n := by simpa using hn
    rw [List.nil_append, List.nil_append, Dialect.routeElements, Dialect.surveyElements,
      List.map_append]
    exact (helement _).append (fun _ => abreast_routeElements post p start _)
  | cons u pre ih =>
    rw [List.cons_append, List.cons_append, Dialect.routeElements, Dialect.surveyElements,
      List.map_append]
    rw [List.length_cons] at hn
    exact (d.abreast_route u _ _ _).append (fun _ => ih (by omega))

theorem Varies.abreast_elements (h : Varies a b (name :: below) (.arr xs) (.arr ys)) (p : Pointer)
    (hchild : ∀ q x y, (arr xs).child? name = some x → (arr ys).child? name = some y →
      Varies a b below x y → d.Abreast a b map key (d.route .schema q (start ++ [name]) x)
        ((d.survey .schema q y).map .take)) :
    d.Abreast a b map key (d.routeElements p start 0 xs) ((d.surveyElements p 0 ys).map .take) := by
  cases h with
  | @element pre post _ x y hxy =>
    apply abreast_elements_append (Nat.zero_add _)
    intro q
    exact hchild q x y (child?_element _ _ _) (child?_element _ _ _) hxy

/-- The labels of elements are told of in the same way if that of the one that varies is. -/
theorem Varies.allLabelSteps_eq (h : Varies a b (name :: below) (.arr xs) (.arr ys)) (p : Pointer)
    (i : Nat) (hchild : ∀ q x y, (arr xs).child? name = some x → (arr ys).child? name = some y →
      Varies a b below x y → Dialect.labelSteps q (d.migrate .schema y)
        = Dialect.labelSteps q (d.migrate .schema x)) :
    Dialect.allLabelSteps p i (d.migrateElements ys)
      = Dialect.allLabelSteps p i (d.migrateElements xs) := by
  cases h with
  | @element pre post _ x y hxy =>
    have hlabel := fun q => hchild q x y (child?_element _ _ _) (child?_element _ _ _) hxy
    clear hchild
    simp only [d.migrateElements_eq_map, List.map_append, List.map_cons]
    induction pre generalizing i with
    | nil =>
      simp only [List.map_nil, List.nil_append, Dialect.allLabelSteps, hlabel]
    | cons u pre ih =>
      simp only [List.map_cons, List.cons_append, Dialect.allLabelSteps, ih (i + 1)]

/-- Two values that vary are visited in the same way if their children are, and if the key of the
    child that varies is not claimed by a rule. -/
theorem Varies.abreast_of_child {role : Role} (h : Varies a b (name :: below) v w)
    (hbelow : below ≠ []) (htype : name = "type" → ∀ index, below ≠ [index])
    (hname : start ++ [name] <+: map) (p : Pointer)
    (hlabel : (∀ visit ∈ v.visits .schemaList start, ¬ visit.Touches d.table map key) →
      ∀ xs q x y, v = .arr xs → v.child? name = some x → w.child? name = some y →
        Varies a b below x y →
        Dialect.labelSteps q (d.migrate .schema y) = Dialect.labelSteps q (d.migrate .schema x))
    (hchild : ∀ q x y, v.child? name = some x → w.child? name = some y → Varies a b below x y →
      d.Abreast a b map key
        (d.route ((Treatment.inRole role).child v name).role q (start ++ [name]) x)
        ((d.survey ((Treatment.inRole role).child v name).role q y).map .take)) :
    d.Abreast a b map key (d.route role p start v) ((d.survey role p w).map .take) := by
  rcases h.obj_or_arr with ⟨ms, ns, rfl, rfl⟩ | ⟨xs, ys, rfl, rfl⟩
  · have hschema (hmembers : d.Abreast a b map key
          (Dialect.inTraversalOrder (d.routeMembers p start ms))
          ((Dialect.inTraversalOrder (d.surveyMembers p ns)).map .take)) :
        d.Abreast a b map key (d.route .schema p start (.obj ms))
          ((d.survey .schema p (.obj ns)).map .take) := by
      apply Dialect.abreast_node
      intro huntouched
      have hclaimed : ∀ other, d.table.recognizes other = true ∨ other = "$ref" → name ≠ other := by
        rintro other hother rfl
        exact huntouched (.value hother hname)
      have hrecognizes : d.table.recognizes name = false := by
        by_contra hclaims
        exact hclaimed name (Or.inl (by simpa using hclaims)) rfl
      have hread := h.readsAlike hrecognizes hbelow htype
      refine ⟨?_, ?_, hmembers⟩
      · rw [Dialect.ruleSteps, Dialect.ruleSteps, Dialect.mapping, Dialect.mapping, hread.map_eq]
      · rw [Dialect.refSteps, Dialect.refSteps, h.get?_eq (hclaimed "$ref" (Or.inr rfl))]
    cases role with
    | schema => exact hschema (h.abreast_members p (hchild _))
    | schemaOrList => exact hschema (h.abreast_members p (hchild _))
    | schemaMap => exact h.abreast_entries p (hchild _)
    | schemaList | labelledList | verbatim => exact .done
  · cases role with
    | schema | schemaMap | verbatim => exact .done
    | schemaList => exact h.abreast_elements p hchild
    | schemaOrList => exact h.abreast_elements p hchild
    | labelledList =>
      rw [Dialect.survey, List.map_append]
      apply (h.abreast_elements p hchild).append
      intro huntouched
      have hlabels : Dialect.allLabelSteps p 0 (d.migrateElements ys)
          = Dialect.allLabelSteps p 0 (d.migrateElements xs) := by
        apply h.allLabelSteps_eq
        intro q x y hx hy hxy
        apply hlabel _ xs q x y rfl hx hy hxy
        intro visit hvisit
        apply huntouched
        exact (Dialect.enter_mem_route_iff (.arr xs) .schemaList p start visit).2 hvisit
      rw [hlabels]
      exact Dialect.abreast_of_filterMap_ref?_eq_nil (Dialect.filterMap_ref?_allLabelSteps p 0 _)

end Parts

/-! ### Values that vary in their definitions -/

section Definitions

variable {word : String} {above start : Place} {entries : Members}

/-- Where no visited object touches the entry, its map is no schema and is not consumed. -/
theorem settled_of_untouched (hat : v.at? (above ++ [word]) = some (.obj entries))
    (h : ∀ visit ∈ v.visits .schema start,
      ¬ visit.Touches d.table (start ++ (above ++ [word])) key) :
    ((Treatment.inRole .schema).below v (above ++ [word])).visits = false ∧
      Keeps d.table (.inRole .schema) v (above ++ [word]) := by
  constructor
  · by_contra hvisits
    rw [Bool.not_eq_false] at hvisits
    exact h _ (mem_visits_of_below (t := .inRole .schema) start hat hvisits) (.map rfl)
  · intro before name after ms hplace hms hvisits
    by_contra hclaims
    apply h _ (mem_visits_of_below (t := .inRole .schema) start hms hvisits)
    refine .value (Or.inl (by simpa using hclaims)) ?_
    simp [hplace]

theorem mem_visits_element {xs : List Json} {x : Json} {visit : Visit}
    (hx : (arr xs).child? name = some x) (h : visit ∈ x.visits .schema (start ++ [name])) :
    visit ∈ (arr xs).visits .schemaList start := by
  obtain ⟨i, hi, hget⟩ := Option.bind_eq_some_iff.1 hx
  obtain rfl := Pointer.eq_toString_of_index? hi
  exact mem_visitsElements hget (by rwa [Nat.zero_add])

/-- To visit the map of the entry is to touch the entry. -/
theorem abreast_map {t : Treatment} (ht : t.visits = true) (p : Pointer) (ms : Members)
    (tasks : List Task) : d.Abreast a b map key (d.route t.role p map (.obj ms)) tasks := by
  rcases Treatment.of_visits_eq_true ht with rfl | rfl | rfl <;> exact .strays _ _ (.map rfl)

variable (hword : word = "definitions" ∨ word = "$defs")
include hword

/-- Two values that vary at an entry of definitions are visited in the same way up to the first
    object that touches the entry. -/
theorem Varies.abreast (h : Varies a b (above ++ [word, key]) v w)
    (hat : v.at? (above ++ [word]) = some (.obj entries)) (role : Role) (p : Pointer)
    (start : Place) :
    d.Abreast a b (start ++ (above ++ [word])) key (d.route role p start v)
      ((d.survey role p w).map .take) := by
  induction above generalizing v w role p start with
  | nil =>
    rw [List.nil_append, at?_singleton] at hat
    obtain ⟨ms, rfl⟩ := exists_obj_of_child? (index?_definitions hword) hat
    apply h.abreast_of_child (List.cons_ne_nil _ _)
    · rintro rfl
      simp at hword
    · exact List.prefix_rfl
    · rintro - xs q x y ⟨⟩
    · intro q x y hx _ hxy
      obtain rfl : x = .obj entries := Option.some.inj (hx.symm.trans hat)
      cases hvisits : ((Treatment.inRole role).child (.obj ms) word).visits with
      | true => exact abreast_map hvisits q entries _
      | false =>
        rw [child_definitions_eq_verbatim hword hat hvisits]
        cases y <;> exact .done
  | cons name above ih =>
    apply h.abreast_of_child (by simp)
    · rintro - index
      exact append_pair_ne_singleton above
    · simp
    · intro huntouched xs q x y hv hx hy hxy
      subst hv
      rw [List.cons_append, at?_cons, hx, Option.bind_some] at hat
      have hsettled : ∀ visit ∈ x.visits .schema (start ++ [name]),
          ¬ visit.Touches d.table (start ++ [name] ++ (above ++ [word])) key := by
        intro visit hvisit
        simpa using huntouched visit (mem_visits_element hx hvisit)
      obtain ⟨hmapped, hkept⟩ := settled_of_untouched hat hsettled
      exact hxy.labelSteps_eq hword hat hmapped hkept q
    · intro q x y hx _ hxy
      rw [List.cons_append, at?_cons, hx, Option.bind_some] at hat
      have hroute := ih hxy hat ((Treatment.inRole role).child v name).role q (start ++ [name])
      simpa using hroute

omit hword in
/-- A place at or above an entry of definitions is the entry, its map, or above the map. -/
theorem place_cases {place below : Place} (h : place ++ below = above ++ [word] ++ [key]) :
    below = [] ∨ (place = above ++ [word] ∧ below = [key]) ∨
      ∃ rest, above = place ++ rest ∧ below = rest ++ [word, key] := by
  rcases List.eq_nil_or_concat below with rfl | ⟨below, last, rfl⟩
  · exact Or.inl rfl
  · rw [List.concat_eq_append, ← List.append_assoc] at h
    obtain ⟨hmap, hlast⟩ := List.append_inj' h rfl
    obtain rfl := List.singleton_inj.1 hlast
    rcases List.eq_nil_or_concat below with rfl | ⟨rest, other, rfl⟩
    · exact Or.inr (Or.inl ⟨by simpa using hmap, rfl⟩)
    · rw [List.concat_eq_append, ← List.append_assoc] at hmap
      obtain ⟨rfl, hother⟩ := List.append_inj' hmap rfl
      obtain rfl := List.singleton_inj.1 hother
      exact Or.inr (Or.inr ⟨rest, rfl, by simp⟩)

/-- The visit of a definition comes to the same in both runs, and so does what is kept of it. -/
theorem abreast_target {document x y : Json} {p : Pointer}
    (hmap : document.at? (above ++ [word]) = some (.obj entries))
    (hx : document.at? p.place = some x) (hnot : ¬ above ++ [word] ++ [key] <+: p.place)
    (h : Counterparts a b (above ++ [word] ++ [key]) p.place x y) {jobs : List Job}
    {tasks : List Task} (htodo : d.Abreast a b (above ++ [word]) key jobs tasks) :
    d.Abreast a b (above ++ [word]) key (d.route .schema p p.place x ++ .keep p x :: jobs)
      ((d.survey .schema p y).map .take ++ .keep p y :: tasks) := by
  cases h with
  | aside _ habove hbelow =>
    exact (d.abreast_route x _ _ _).append (fun _ => .keep (.aside _ habove hbelow) htodo)
  | @above below _ _ hplace hvaries =>
    rcases place_cases hplace with rfl | ⟨hupto, rfl⟩ | ⟨rest, rfl, rfl⟩
    · rw [List.append_nil] at hplace
      exact absurd (hplace ▸ List.prefix_rfl) hnot
    · -- the reference leads to the map itself
      rw [hupto, hmap, Option.some.injEq] at hx
      subst hx
      exact .strays _ _ (.map hupto)
    · rw [List.append_assoc] at hmap htodo ⊢
      rw [at?_append_of_eq_some hx] at hmap
      apply (hvaries.abreast hword hmap .schema p p.place).append
      intro huntouched
      have hvisits : ∀ visit ∈ x.visits .schema p.place,
          ¬ visit.Touches d.table (p.place ++ (rest ++ [word])) key := by
        intro visit hvisit
        exact huntouched visit ((Dialect.enter_mem_route_iff x .schema p p.place visit).2 hvisit)
      obtain ⟨hmapped, hkept⟩ := settled_of_untouched hmap hvisits
      refine .keep (.above ?_ (hvaries.treat hword hmap hmapped hkept)) htodo
      simp

end Definitions

end Json

end Relayout
