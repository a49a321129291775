/-
  Relayout/Proofs/Migration/Revisit.lean
  ======================================
  **What a walk of a result visits.**

  A walk of the result of a walk comes to nothing new.  An object that it visits below a start of
  the first walk was visited by that walk, which has reworked it, or was added and is inert
  (`Dialect.exists_origin_of_visit`).  So the references that it follows into definitions are
  references that the first walk has reached (`Dialect.mem_resolved_of_reachable`).
-/
import Relayout.Proofs.Migration.Remapping
import Relayout.Proofs.Migration.Settled

namespace Relayout

open DepthFirst (Reachable Search)

/-! ### Visited objects -/

namespace Json

/-- A reference into the document resolves if there is a value where it leads. -/
theorem resolves_iff {document : Json} {ref : String} {p : Pointer}
    (hp : Pointer.ofRef? ref = some p) : document.Resolves ref ↔ document.at? p.place ≠ none := by
  obtain ⟨fragment, hfragment, hpointer⟩ := Option.bind_eq_some_iff.1 hp
  unfold Resolves
  cases hat : document.at? p.place <;> simp [hfragment, locate?, hpointer, find?_eq_at?, hat]

theorem ref?_eq_some_iff {visit : Visit} {ref : String} :
    visit.ref? = some ref ↔ visit.node.get? "$ref" = some (.str ref) := by
  unfold Visit.ref?
  cases visit.node.get? "$ref" with
  | none => simp
  | some v => cases v <;> simp [asString?]

/-- A reference that can be reached is carried by a visited object. -/
theorem exists_carrier {document : Json} (hdocument : document.WellFormed) {ref : String}
    (h : Reachable document.targetRefs document.definitionRefs ref) :
    ∃ visit, document.Visited visit ∧ visit.ref? = some ref := by
  cases h with
  | root hmem =>
    obtain ⟨visit, hvisit, href⟩ := List.mem_filterMap.1 (List.mem_filter.1 hmem).1
    exact ⟨visit, Or.inl hvisit, href⟩
  | @step parent _ hreach hmem =>
    unfold targetRefs at hmem
    cases htarget : document.target? parent with
    | none =>
      rw [htarget] at hmem
      cases hmem
    | some target =>
      rw [htarget] at hmem
      obtain ⟨p, hp, hat⟩ := Option.bind_eq_some_iff.1 htarget
      obtain ⟨visit, hvisit, href⟩ := List.mem_filterMap.1 (List.mem_filter.1 hmem).1
      have htargetWell := hdocument.at hat
      obtain ⟨below, -, hbelow, hvisits⟩ :=
        (mem_visits_schema_iff htargetWell []).1 hvisit
      have hmoved : ⟨p.place ++ below, visit.node⟩ ∈ target.visits .schema p.place :=
        mem_visits_of_below p.place hbelow hvisits
      exact ⟨_, Or.inr ⟨parent, p, target, hreach, hp, hat, hmoved⟩, href⟩

/-- A reference into definitions can be reached if it is carried by an object that a visit of the
    root, or of a definition that can be reached, comes to. -/
theorem Visited.reachable {document : Json} {visit : Visit} (h : document.Visited visit)
    {ref : String} (href : visit.ref? = some ref) (hleads : leadsIntoDefinitions ref = true) :
    Reachable document.targetRefs document.definitionRefs ref := by
  rcases h with hmem | ⟨parent, p, target, hreach, hp, hat, hmem⟩
  · apply Reachable.root
    exact List.mem_filter.2 ⟨List.mem_filterMap.2 ⟨visit, hmem, href⟩, hleads⟩
  · apply hreach.step
    have htarget : document.target? parent = some target := by simp [target?, hp, hat]
    simp only [targetRefs, htarget, definitionRefs, filterMap_ref?_visits target .schema [] p.place]
    exact List.mem_filter.2 ⟨List.mem_filterMap.2 ⟨visit, hmem, href⟩, hleads⟩

end Json

namespace Migration

variable {m : Migration} {document : Json}

theorem mem_starts_iff
    (hsearch : Search document.targetRefs document.definitionRefs [] m.resolved) {start : Place} :
    start ∈ m.starts ↔ document.Start start := by
  rw [starts, List.mem_cons, mem_placesOf, Json.Start]
  simp only [hsearch.mem_iff_reachable]
  constructor
  · rintro (hroot | ⟨ref, href, p, hp, hplace⟩)
    · exact Or.inl hroot
    · exact Or.inr ⟨ref, p, href, hp, hplace⟩
  · rintro (hroot | ⟨ref, p, href, hp, hplace⟩)
    · exact Or.inl hroot
    · exact Or.inr ⟨ref, href, p, hp, hplace⟩

/-- What a walk has visited is what was to be visited. -/
theorem visited_iff
    (hsearch : Search document.targetRefs document.definitionRefs [] m.resolved)
    (hdocument : document.WellFormed) {place : Place} {node : Members} :
    m.Visited document place node ↔ document.Visited ⟨place, node⟩ := by
  constructor
  · rintro ⟨-, start, hstart, target, htarget, hvisit⟩
    rcases (mem_starts_iff hsearch).1 hstart with rfl | ⟨ref, p, hreach, hp, rfl⟩
    · cases htarget
      exact Or.inl hvisit
    · exact Or.inr ⟨ref, p, target, hreach, hp, htarget, hvisit⟩
  · intro h
    obtain ⟨hat, start, below, target, hstart, hplace, htarget, hvisits⟩ :=
      h.exists_start hdocument
    simp only at hat hplace
    subst hplace
    rw [Json.at?_append_of_eq_some htarget] at hat
    exact ⟨(Json.at?_append_of_eq_some htarget below).trans hat, start,
      (mem_starts_iff hsearch).2 hstart, target, htarget,
      Json.mem_visits_of_below start hat hvisits⟩

end Migration

/-! ### Places that were gained -/

theorem Json.exists_gained {v : Json} {place : Place} (h : v.at? place = none) :
    ∃ above name rest, place = above ++ name :: rest ∧ v.at? above ≠ none ∧
      v.at? (above ++ [name]) = none := by
  induction place using List.reverseRecOn with
  | nil => cases h
  | append_singleton parent name ih =>
    cases hparent : v.at? parent with
    | some w => exact ⟨parent, name, [], rfl, by simp [hparent], h⟩
    | none =>
      obtain ⟨above, key, rest, rfl, habove, hnone⟩ := ih hparent
      exact ⟨above, key, rest ++ [name], by simp, habove, hnone⟩

namespace Treatment

/-- An added member is treated as a schema at most. -/
theorem child_of_mem_addedKeys (t : Treatment) {v w : Json} {name : String}
    (hname : name ∈ addedKeys) (hw : v.child? name = some w) :
    t.child v name = .inRole .schema ∨ t.child v name = .inRole .verbatim := by
  cases v with
  | obj ms =>
    cases ht : t.visits with
    | true =>
      rw [child_of_visits ht, ofKeyword_of_mem_addedKeys hname]
      exact Or.inr rfl
    | false =>
      rcases of_visits_eq_false ht with rfl | rfl | rfl | rfl
      · exact Or.inl rfl
      · exact Or.inr rfl
      · exact Or.inr rfl
      · exact Or.inr rfl
  | arr xs =>
    obtain ⟨i, hi, -⟩ := Option.bind_eq_some_iff.1 hw
    have hindices : ∀ key ∈ addedKeys, Pointer.index? key = none := by decide
    rw [hindices name hname] at hi
    cases hi
  | null | bool | num | str => cases hw

/-- Nothing below an inert value is visited. -/
theorem below_of_inert {v : Json} (h : v.shape.Inert) (name : String) (rest : Place) :
    (inRole .schema).below v (name :: rest) = .inRole .verbatim := by
  unfold below
  cases hchild : v.child? name with
  | none => rfl
  | some w =>
    cases v with
    | obj ms =>
      have hrole : Role.ofKeyword name = .verbatim := by
        have hlayouts : ∀ key ∈ LayoutNode.keys, Role.ofKeyword key = .verbatim := by decide
        apply hlayouts
        by_contra hnot
        rw [Json.child?, Json.child?_eq_none_of_inert h hnot] at hchild
        cases hchild
      have htreated : (inRole .schema).child (.obj ms) name = .inRole .verbatim := by
        rw [child_of_visits rfl, hrole]
      simp only [htreated]
      exact below_verbatim w rest
    | null | bool | num | str | arr => exact below_verbatim w rest

/-- Of what was gained, only added objects themselves can be visited. -/
theorem inert_of_gained {table : Table} {v w : Json} (h : table.Reworks v w) (t : Treatment)
    {below : Place} {node : Members} (hnone : v.at? below = none)
    (hnode : w.at? below = some (.obj node)) (hvisits : (t.below w below).visits = true) :
    (Json.obj node).shape.Inert := by
  obtain ⟨above, name, rest, rfl, habove, hgained⟩ := Json.exists_gained hnone
  have hplace : above ++ name :: rest = above ++ [name] ++ rest := by simp
  rw [hplace] at hnode hvisits
  obtain ⟨added, hadded⟩ : ∃ added, w.at? (above ++ [name]) = some added := by
    apply Option.ne_none_iff_exists'.1
    apply Json.at?_ne_none_of_append
    rw [hnode]
    exact Option.some_ne_none _
  obtain ⟨hname, hinert⟩ := h.gained above name added habove hgained hadded
  rw [Json.at?_append_of_eq_some hadded] at hnode
  cases rest with
  | nil =>
    cases hnode
    exact hinert
  | cons key rest =>
    rw [below_append t hadded] at hvisits
    have hadded' := hadded
    rw [Json.at?_append, Option.bind_eq_some_iff] at hadded'
    obtain ⟨owner, howner, hchild⟩ := hadded'
    rw [Json.at?_singleton] at hchild
    have htreated : t.below w (above ++ [name]) = (t.below w above).child owner name := by
      rw [below_append t howner, below_singleton _ hchild]
    rw [htreated] at hvisits
    rcases (t.below w above).child_of_mem_addedKeys hname hchild with hschema | hverbatim
    · rw [hschema, below_of_inert hinert] at hvisits
      cases hvisits
    · rw [hverbatim, below_verbatim] at hvisits
      cases hvisits

end Treatment

/-! ### Objects of a result -/

namespace Dialect

variable {d : Dialect} {document : Json} {m : Migration} {id : String}

section Result

variable (h : (d.walk document).result = .ok m)

include h

/-- What lies below a start and is visited was visited before, or is inert. -/
theorem exists_origin_of_visit {start below : Place} (hstart : start ∈ m.starts) {out : Json}
    (hout : (m.schema.stamped id).at? start = some out) {ns : Members}
    (hns : out.at? below = some (.obj ns))
    (hvisits : ((Treatment.inRole .schema).below out below).visits = true) :
    (Json.obj ns).shape.Inert ∨ ∃ node, m.Visited document (start ++ below) node ∧
      d.table.Reworks (.obj node) (.obj ns) := by
  obtain ⟨target, htarget⟩ := exists_target_of_mem_starts h hstart
  have hreworks := (reworks_stamped_walk h id).at_place htarget hout
  cases hv : target.at? below with
  | none => exact Or.inl (Treatment.inert_of_gained hreworks _ hv hns hvisits)
  | some v =>
    have hpair := hreworks.at_place hv hns
    obtain ⟨node, rfl⟩ : ∃ node, v = .obj node := by
      cases hpair.root
      exact ⟨_, rfl⟩
    have hsame : (Treatment.inRole .schema).below out below
        = (Treatment.inRole .schema).below target below :=
      hreworks.below_eq _ (by simp [hv]) (by simp [hns])
    rw [hsame] at hvisits
    exact Or.inr ⟨node, visited_of_below hstart htarget hv hvisits, hpair⟩

variable (hdocument : document.WellFormed)

include hdocument

/-- What is visited below a start follows into definitions only what has been reached. -/
theorem mem_resolved_of_definitionRefs {start : Place} (hstart : start ∈ m.starts) {out : Json}
    (hout : (m.schema.stamped id).at? start = some out) {ref : String}
    (href : ref ∈ out.definitionRefs) : ref ∈ m.resolved := by
  have hsearch := search_of_walk h
  have hwell : (m.schema.stamped id).WellFormed := (wellFormed_walk hdocument h).stamped id
  obtain ⟨hmem, hleads⟩ := List.mem_filter.1 href
  obtain ⟨visit, hvisit, hcarried⟩ := List.mem_filterMap.1 hmem
  obtain ⟨below, -, hbelow, hvisits⟩ :=
    (Json.mem_visits_schema_iff (hwell.at hout) []).1 hvisit
  rcases exists_origin_of_visit h hstart hout hbelow hvisits with hinert | ⟨node, hnode, hreworks⟩
  · have hnone : visit.node.get? "$ref" = none := Json.child?_eq_none_of_inert hinert (by decide)
    rw [Json.ref?_eq_some_iff, hnone] at hcarried
    cases hcarried
  · have hvisited := (Migration.visited_iff hsearch hdocument).1 hnode
    have hsame : (Visit.mk (start ++ below) node).ref? = some ref :=
      (hreworks.ref?_eq _).symm.trans hcarried
    exact hsearch.mem_iff_reachable.2 (hvisited.reachable hsame hleads)

/-- What a walk of the result can reach has been reached. -/
theorem mem_resolved_of_reachable {ref : String}
    (href : Reachable (m.schema.stamped id).targetRefs (m.schema.stamped id).definitionRefs ref) :
    ref ∈ m.resolved := by
  induction href with
  | root hmem => exact mem_resolved_of_definitionRefs h hdocument List.mem_cons_self rfl hmem
  | @step parent _ _ hmem ih =>
    unfold Json.targetRefs at hmem
    cases htarget : (m.schema.stamped id).target? parent with
    | none =>
      rw [htarget] at hmem
      cases hmem
    | some out =>
      rw [htarget] at hmem
      obtain ⟨p, hp, hout⟩ := Option.bind_eq_some_iff.1 htarget
      have hstart : p.place ∈ m.starts := by
        apply List.mem_cons_of_mem
        exact mem_placesOf.2 ⟨parent, ih, p, hp, rfl⟩
      exact mem_resolved_of_definitionRefs h hdocument hstart hout hmem

/-- An object that a walk of the result visits was visited before, or is inert. -/
theorem exists_origin_of_visited {visit : Visit} (hvisit : (m.schema.stamped id).Visited visit) :
    (Json.obj visit.node).shape.Inert ∨ ∃ node, m.Visited document visit.place node ∧
      d.table.Reworks (.obj node) (.obj visit.node) := by
  have hwell : (m.schema.stamped id).WellFormed := (wellFormed_walk hdocument h).stamped id
  obtain ⟨hat, start, below, out, hstart, hplace, hout, hvisits⟩ := hvisit.exists_start hwell
  have hmem : start ∈ m.starts := by
    rcases hstart with rfl | ⟨ref, p, hreach, hp, rfl⟩
    · exact List.mem_cons_self
    · apply List.mem_cons_of_mem
      exact mem_placesOf.2 ⟨ref, mem_resolved_of_reachable h hdocument hreach, p, hp, rfl⟩
  rw [hplace, Json.at?_append_of_eq_some hout] at hat
  rw [hplace]
  exact exists_origin_of_visit h hmem hout hat hvisits

end Result

end Dialect

end Relayout
