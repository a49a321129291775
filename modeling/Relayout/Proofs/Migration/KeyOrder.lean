/-
  Relayout/Proofs/Migration/KeyOrder.lean
  =======================================
  **A run does not depend on the order of keys.**

  In which order a walk comes to the objects of a document, and so in which order it meets the
  references and puts the reached definitions back, is decided by the order of keys.  What it does
  at a place is not: the place is treated as the keywords on the way there say
  (`Treatment.below_sorted`), a value is migrated by what is found under its keys
  (`Dialect.sorted_migrate_sorted`), and which objects are visited is a matter of what can be
  reached (`Json.visited_sorted_iff`).  Since each place of a result shows what the deepest start
  above it is migrated to, the results of two walks can be compared place by place, whatever the
  order was in which their definitions were put back (`Dialect.sorted_schema_walk_sorted`).
-/
import Relayout.Proofs.Extension.KeyOrder
import Relayout.Proofs.Migration.Revisit

namespace Relayout

open DepthFirst (Reachable)

/-! ### Labels -/

namespace Json

variable {v : Json}

theorem discriminantTitle?_sorted (hv : v.WellFormed) :
    discriminantTitle? v.sorted = discriminantTitle? v := by
  cases v with
  | obj ms =>
    simp only [sorted_obj, discriminantTitle?, Members.has_sorted, Members.get?_sorted hv.1]
    cases Members.get? ms "title" with
    | none => rfl
    | some title => rw [Option.map_some, Option.bind_some, Option.bind_some, asString?_sorted]
  | arr xs => rw [sorted_arr]; rfl
  | null | bool | num | str => rfl

theorem filterMap_discriminantTitle?_sorted_perm {properties : Members}
    (hproperties : (obj properties).WellFormed) :
    (properties.sorted.filterMap (fun p => discriminantTitle? p.2)).Perm
      (properties.filterMap (fun p => discriminantTitle? p.2)) := by
  have hperm : properties.sorted.Perm (sortedMembers properties) := List.perm_insertionSort _ _
  have htitles : (sortedMembers properties).filterMap (fun p => discriminantTitle? p.2)
      = properties.filterMap (fun p => discriminantTitle? p.2) := by
    rw [sortedMembers_eq_map, List.filterMap_map]
    apply List.filterMap_congr
    intro p hp
    exact discriminantTitle?_sorted ((wellFormed_obj_iff.1 hproperties).2 p hp)
  rw [← htitles]
  exact hperm.filterMap _

theorem branchTitles_sorted_perm (hv : v.WellFormed) :
    (branchTitles v.sorted).Perm (branchTitles v) := by
  cases v with
  | obj ms =>
    simp only [sorted_obj, branchTitles, Json.get?, Members.get?_sorted hv.1]
    cases hproperties : Members.get? ms "properties" with
    | none => rfl
    | some properties =>
      cases properties with
      | obj ps => exact filterMap_discriminantTitle?_sorted_perm (hv.child hproperties)
      | arr xs => rw [Option.map_some, sorted_arr]; rfl
      | null | bool | num | str => rfl
  | arr xs => rw [sorted_arr]; rfl
  | null | bool | num | str => rfl

end Json

theorem discriminantTitles_sorted_perm {element : Members}
    (helement : (Json.obj element).WellFormed) :
    (discriminantTitles element.sorted).Perm (discriminantTitles element) := by
  rw [discriminantTitles_eq, discriminantTitles_eq, Members.get?_sorted helement.1]
  cases hchoice : element.get? "oneOf" with
  | none => rfl
  | some choice =>
    cases choice with
    | arr branches =>
      rw [Option.map_some, Json.sorted_arr]
      cases branches with
      | nil => rfl
      | cons first rest =>
        have hbranches : (Json.arr (first :: rest)).WellFormed := helement.child hchoice
        apply Json.branchTitles_sorted_perm
        exact Json.wellFormed_arr_iff.1 hbranches first List.mem_cons_self
    | obj ms => rfl
    | null | bool | num | str => rfl

/-- A label is due only where there is one discriminant, so the order of several does not matter. -/
theorem label?_labelling_sorted {element : Members} (helement : (Json.obj element).WellFormed) :
    (labelling element.sorted).label? = (labelling element).label? := by
  have hperm := discriminantTitles_sorted_perm helement
  apply Option.ext
  intro label
  rw [label?_labelling_eq_some_iff, label?_labelling_eq_some_iff, Members.has_sorted,
    ← List.perm_singleton, ← List.perm_singleton, hperm.congr_left]

namespace Json

variable {v w : Json}

theorem sorted_withLabel_sorted (hv : v.WellFormed) :
    v.sorted.withLabel.sorted = v.withLabel.sorted := by
  cases v with
  | obj element =>
    have hlabelled : (obj (attachLabel element)).WellFormed := hv.withLabel
    have hlabelledSorted : (obj (attachLabel (Members.sorted element))).WellFormed :=
      hv.sorted.withLabel
    rw [attachLabel_eq] at hlabelled
    rw [attachLabel_eq, label?_labelling_sorted hv] at hlabelledSorted
    simp only [sorted_obj, withLabel, attachLabel_eq, label?_labelling_sorted hv]
    congr 1
    exact Members.sorted_append_congr (obj.inj (sorted_sorted hv)) rfl hlabelledSorted.1 hlabelled.1
  | arr xs => exact sorted_sorted hv
  | null | bool | num | str => rfl

theorem sorted_withLabel_congr (hv : v.WellFormed) (hw : w.WellFormed) (h : v.sorted = w.sorted) :
    v.withLabel.sorted = w.withLabel.sorted := by
  rw [← sorted_withLabel_sorted hv, h, sorted_withLabel_sorted hw]

end Json

/-! ### Migrated values -/

namespace Dialect

variable (d : Dialect)

theorem sorted_migrateMembers_sorted {ms : Members} (hms : (Json.obj ms).WellFormed)
    (hvalues : ∀ m ∈ ms, ∀ role, (d.migrate role m.2.sorted).sorted = (d.migrate role m.2).sorted) :
    (d.migrateMembers ms.sorted).sorted = (d.migrateMembers ms).sorted := by
  have hnodup : (d.migrateMembers ms).keys.Nodup := by
    rw [keys_migrateMembers]
    exact hms.1.filter _
  have hnodupSorted : (d.migrateMembers ms.sorted).keys.Nodup := by
    rw [keys_migrateMembers]
    exact (Members.nodup_keys_sorted hms.1).filter _
  rw [Members.sorted_eq_sorted_iff hnodupSorted hnodup]
  intro key
  rw [get?_migrateMembers, get?_migrateMembers, Members.get?_sorted hms.1]
  cases d.table.recognizes key with
  | true => rfl
  | false =>
    cases hget : ms.get? key with
    | none => rfl
    | some v => exact congrArg some (hvalues _ (Members.mem_of_get?_eq_some hget) _)

theorem sorted_migrateEntries_sorted {ms : Members} (hms : (Json.obj ms).WellFormed)
    (hvalues : ∀ m ∈ ms, (d.migrate .schema m.2.sorted).sorted = (d.migrate .schema m.2).sorted) :
    (d.migrateEntries ms.sorted).sorted = (d.migrateEntries ms).sorted := by
  have hnodup : (d.migrateEntries ms).keys.Nodup := by
    rw [keys_migrateEntries]
    exact hms.1
  have hnodupSorted : (d.migrateEntries ms.sorted).keys.Nodup := by
    rw [keys_migrateEntries]
    exact Members.nodup_keys_sorted hms.1
  rw [Members.sorted_eq_sorted_iff hnodupSorted hnodup]
  intro key
  rw [get?_migrateEntries, get?_migrateEntries, Members.get?_sorted hms.1]
  cases hget : ms.get? key with
  | none => rfl
  | some v => exact congrArg some (hvalues _ (Members.mem_of_get?_eq_some hget))

/-- A sorted value is migrated to what the value is migrated to, up to the order of keys. -/
theorem sorted_migrate_sorted {v : Json} (hv : v.WellFormed) (role : Role) :
    (d.migrate role v.sorted).sorted = (d.migrate role v).sorted := by
  induction v using Json.induction_on generalizing role with
  | null | bool | num | str => rfl
  | arr xs ih =>
    have hsame : (Json.arr (xs.map Json.sorted)).sorted = (Json.arr xs).sorted := by
      rw [← Json.sorted_arr, Json.sorted_sorted hv]
    have hxs := Json.wellFormed_arr_iff.1 hv
    rw [Json.sorted_arr]
    have helements : (Json.arr (d.migrateElements (xs.map Json.sorted))).sorted
        = (Json.arr (d.migrateElements xs)).sorted := by
      simp only [migrateElements_eq_map, Json.sorted_arr, List.map_map]
      congr 1
      apply List.map_congr_left
      intro x hx
      exact ih x hx (hxs x hx) .schema
    cases role with
    | schema | schemaMap | verbatim => exact hsame
    | schemaList => exact helements
    | schemaOrList => exact helements
    | labelledList =>
      simp only [migrate, migrateElements_eq_map, Json.sorted_arr, List.map_map]
      congr 1
      apply List.map_congr_left
      intro x hx
      have hx' := hxs x hx
      exact Json.sorted_withLabel_congr (hx'.sorted.migrate d .schema) (hx'.migrate d .schema)
        (ih x hx hx' .schema)
  | obj ms ih =>
    have hsame : (Json.obj (Members.sorted ms)).sorted = (Json.obj ms).sorted :=
      Json.sorted_sorted hv
    have hms := (Json.wellFormed_obj_iff.1 hv).2
    rw [Json.sorted_obj]
    have hschema : (Json.obj (d.migrateMembers (Members.sorted ms)
          ++ d.layoutMember (Members.sorted ms))).sorted
        = (Json.obj (d.migrateMembers ms ++ d.layoutMember ms)).sorted := by
      have hmigrated := hv.migrate d .schema
      have hmigratedSorted := hv.sorted.migrate d .schema
      apply congrArg Json.obj
      refine Members.sorted_append_congr ?_ (d.sorted_layoutMember_sorted hv) hmigratedSorted.1
        hmigrated.1
      exact d.sorted_migrateMembers_sorted hv (fun m hm role => ih m hm (hms m hm) role)
    cases role with
    | schema => exact hschema
    | schemaOrList => exact hschema
    | schemaMap =>
      apply congrArg Json.obj
      exact d.sorted_migrateEntries_sorted hv (fun m hm => ih m hm (hms m hm) .schema)
    | schemaList | labelledList | verbatim => exact hsame

end Dialect

/-! ### Visits -/

namespace Treatment

theorem child_sorted (t : Treatment) (v : Json) (name : String) :
    t.child v.sorted name = t.child v name := by
  cases v with
  | arr | obj =>
    cases t with
    | inRole role => cases role <;> rfl
    | labelled => rfl
  | null | bool | num | str => rfl

/-- How a place is treated does not depend on the order of keys. -/
theorem below_sorted (t : Treatment) {v : Json} (hv : v.WellFormed) (place : Place) :
    t.below v.sorted place = t.below v place := by
  induction place generalizing t v with
  | nil => rfl
  | cons name place ih =>
    simp only [below, Json.child?_sorted hv, child_sorted]
    cases hchild : v.child? name with
    | none => rfl
    | some w => exact ih _ (hv.child hchild)

end Treatment

theorem Visit.ref?_sorted {node : Members} (hnode : (Json.obj node).WellFormed) (place : Place) :
    (Visit.mk place node.sorted).ref? = (Visit.mk place node).ref? := by
  simp only [ref?, Members.get?_sorted hnode.1]
  cases node.get? "$ref" with
  | none => rfl
  | some v => exact v.asString?_sorted

namespace Json

variable {v document : Json} {ref : String} {visit : Visit}

theorem at?_sorted_eq_some_iff (hv : v.WellFormed) {place : Place} {node : Members} :
    v.sorted.at? place = some (.obj node) ↔
      ∃ ms : Members, v.at? place = some (.obj ms) ∧ node = ms.sorted := by
  rw [at?_sorted hv, Option.map_eq_some_iff]
  constructor
  · rintro ⟨w, hw, hsorted⟩
    cases w with
    | obj ms =>
      cases hsorted
      exact ⟨ms, hw, rfl⟩
    | arr xs => cases hsorted
    | null | bool | num | str => cases hsorted
  · rintro ⟨ms, hms, rfl⟩
    exact ⟨_, hms, rfl⟩

/-- The objects visited in a sorted value are those visited in the value, sorted. -/
theorem mem_visits_sorted_iff (hv : v.WellFormed) (start : Place) :
    visit ∈ v.sorted.visits .schema start ↔ ∃ node : Members,
      ⟨visit.place, node⟩ ∈ v.visits .schema start ∧ visit.node = node.sorted := by
  simp only [mem_visits_schema_iff hv, mem_visits_schema_iff hv.sorted, at?_sorted_eq_some_iff hv,
    Treatment.below_sorted _ hv]
  constructor
  · rintro ⟨below, hplace, ⟨node, hnode, hvisit⟩, hvisits⟩
    exact ⟨node, ⟨below, hplace, hnode, hvisits⟩, hvisit⟩
  · rintro ⟨node, ⟨below, hplace, hnode, hvisits⟩, hvisit⟩
    exact ⟨below, hplace, ⟨node, hnode, hvisit⟩, hvisits⟩

theorem WellFormed.of_mem_visits (hv : v.WellFormed) {start : Place}
    (h : visit ∈ v.visits .schema start) : (obj visit.node).WellFormed := by
  obtain ⟨below, -, hat, -⟩ := (mem_visits_schema_iff hv start).1 h
  exact hv.at hat

theorem mem_definitionRefs_sorted_iff (hv : v.WellFormed) :
    ref ∈ v.sorted.definitionRefs ↔ ref ∈ v.definitionRefs := by
  simp only [definitionRefs, List.mem_filter, List.mem_filterMap, mem_visits_sorted_iff hv]
  apply and_congr_left'
  constructor
  · rintro ⟨⟨place, _⟩, ⟨node, hnode, rfl⟩, href⟩
    exact ⟨_, hnode, (Visit.ref?_sorted (hv.of_mem_visits hnode) place).symm.trans href⟩
  · rintro ⟨⟨place, node⟩, hnode, href⟩
    exact ⟨⟨place, node.sorted⟩, ⟨node, hnode, rfl⟩,
      (Visit.ref?_sorted (hv.of_mem_visits hnode) place).trans href⟩

section Document

variable (hdocument : document.WellFormed)

include hdocument

theorem mem_targetRefs_sorted_iff {found : String} :
    found ∈ document.sorted.targetRefs ref ↔ found ∈ document.targetRefs ref := by
  unfold targetRefs target?
  cases Pointer.ofRef? ref with
  | none => rfl
  | some p =>
    rw [Option.bind_some, Option.bind_some, at?_sorted hdocument]
    cases hat : document.at? p.place with
    | none => rfl
    | some target => exact mem_definitionRefs_sorted_iff (hdocument.at hat)

/-- Which definitions can be reached does not depend on the order of keys. -/
theorem reachable_sorted_iff :
    Reachable document.sorted.targetRefs document.sorted.definitionRefs ref ↔
      Reachable document.targetRefs document.definitionRefs ref := by
  constructor
  · intro h
    refine h.mono ?_ ?_
    · intro root
      exact (mem_definitionRefs_sorted_iff hdocument).1
    · intro parent found
      exact (mem_targetRefs_sorted_iff hdocument).1
  · intro h
    refine h.mono ?_ ?_
    · intro root
      exact (mem_definitionRefs_sorted_iff hdocument).2
    · intro parent found
      exact (mem_targetRefs_sorted_iff hdocument).2

theorem resolves_sorted_iff : document.sorted.Resolves ref ↔ document.Resolves ref := by
  have hlocate (fragment : String) : locate? document.sorted fragment = none ↔
      locate? document fragment = none := by
    unfold locate?
    cases fragmentPointer? fragment with
    | none => rfl
    | some p =>
      simp only [Option.bind_eq_bind, Option.bind_some, find?_eq_at?, at?_sorted hdocument]
      cases document.at? p.place <;> simp
  simp only [Resolves, ne_eq, hlocate]

/-- The objects visited in a sorted document are those visited in the document, sorted. -/
theorem visited_sorted_iff : document.sorted.Visited visit ↔ ∃ node : Members,
    document.Visited ⟨visit.place, node⟩ ∧ visit.node = node.sorted := by
  constructor
  · rintro (hroot | ⟨ref, p, out, hreach, hp, hout, hmem⟩)
    · obtain ⟨node, hnode, hvisit⟩ := (mem_visits_sorted_iff hdocument []).1 hroot
      exact ⟨node, Or.inl hnode, hvisit⟩
    · rw [reachable_sorted_iff hdocument] at hreach
      rw [at?_sorted hdocument] at hout
      obtain ⟨target, htarget, rfl⟩ := Option.map_eq_some_iff.1 hout
      obtain ⟨node, hnode, hvisit⟩ :=
        (mem_visits_sorted_iff (hdocument.at htarget) p.place).1 hmem
      exact ⟨node, Or.inr ⟨ref, p, target, hreach, hp, htarget, hnode⟩, hvisit⟩
  · rintro ⟨node, hroot | ⟨ref, p, target, hreach, hp, htarget, hmem⟩, hvisit⟩
    · exact Or.inl ((mem_visits_sorted_iff hdocument []).2 ⟨node, hroot, hvisit⟩)
    · rw [← reachable_sorted_iff hdocument] at hreach
      have hout := at?_sorted_of_eq_some hdocument htarget
      have hsorted := (mem_visits_sorted_iff (hdocument.at htarget) p.place).2 ⟨node, hmem, hvisit⟩
      exact Or.inr ⟨ref, p, _, hreach, hp, hout, hsorted⟩

end Document

end Json

/-! ### Walks -/

namespace Dialect

variable {d : Dialect} {document : Json} (hdocument : document.WellFormed)

include hdocument

theorem acceptable_sorted_iff {node : Members} (hnode : (Json.obj node).WellFormed) :
    d.Acceptable document.sorted node.sorted ↔ d.Acceptable document node := by
  have hmapped (path : String) : (∃ mapped, (d.mapping path node.sorted).result = .ok mapped) ↔
      ∃ mapped, (d.mapping path node).result = .ok mapped :=
    Table.exists_mapped_sorted_iff (s := ⟨path, node, d.detector⟩) hnode.1
  have href : (∀ v, node.sorted.get? "$ref" = some v →
        ∃ ref, v = .str ref ∧ document.sorted.Resolves ref) ↔
      ∀ v, node.get? "$ref" = some v → ∃ ref, v = .str ref ∧ document.Resolves ref := by
    simp only [Members.get?_sorted hnode.1, Json.resolves_sorted_iff hdocument]
    cases node.get? "$ref" with
    | none => simp
    | some v => simp [Json.sorted_eq_str_iff]
  constructor
  · intro h
    exact ⟨fun path => (hmapped path).1 (h.mapped path), href.1 h.ref⟩
  · intro h
    exact ⟨fun path => (hmapped path).2 (h.mapped path), href.2 h.ref⟩

/-- Whether a walk succeeds does not depend on the order of keys. -/
theorem exists_walk_sorted_iff :
    (∃ m, (d.walk document.sorted).result = .ok m) ↔ ∃ m, (d.walk document).result = .ok m := by
  have hnode {visit : Visit} (hvisit : document.Visited visit) :
      (Json.obj visit.node).WellFormed := hdocument.at (hvisit.exists_start hdocument).1
  constructor
  · rintro ⟨m, h⟩
    apply exists_walk_of_acceptable
    intro visit hvisit
    rw [← acceptable_sorted_iff hdocument (hnode hvisit)]
    have hsorted : document.sorted.Visited ⟨visit.place, visit.node.sorted⟩ :=
      (Json.visited_sorted_iff hdocument).2 ⟨visit.node, hvisit, rfl⟩
    exact acceptable_of_walk h hsorted
  · rintro ⟨m, h⟩
    apply exists_walk_of_acceptable
    rintro ⟨place, _⟩ hvisit
    obtain ⟨node, hvisited, rfl⟩ := (Json.visited_sorted_iff hdocument).1 hvisit
    rw [acceptable_sorted_iff hdocument (hnode hvisited)]
    exact acceptable_of_walk h hvisited

section Results

variable {m m' : Migration} (h : (d.walk document).result = .ok m)
  (h' : (d.walk document.sorted).result = .ok m')

include h h'

theorem resolved_walk_sorted_perm : m'.resolved.Perm m.resolved := by
  have hsearch := search_of_walk h
  have hsearch' := search_of_walk h'
  rw [List.perm_ext_iff_of_nodup (hsearch'.nodup List.nodup_nil) (hsearch.nodup List.nodup_nil)]
  intro ref
  rw [hsearch'.mem_iff_reachable, hsearch.mem_iff_reachable, Json.reachable_sorted_iff hdocument]

/-- The two walks start at the same places. -/
theorem mem_starts_walk_sorted_iff {start : Place} : start ∈ m'.starts ↔ start ∈ m.starts := by
  rw [Migration.mem_starts_iff (search_of_walk h'), Migration.mem_starts_iff (search_of_walk h)]
  simp only [Json.Start, Json.reachable_sorted_iff hdocument]

theorem deepest_walk_sorted_iff {start below : Place} :
    m'.Deepest start below ↔ m.Deepest start below := by
  simp only [Migration.Deepest, mem_starts_walk_sorted_iff hdocument h h']

theorem consumed_walk_sorted_iff {place : Place} :
    m'.Consumed d.table document.sorted place ↔ m.Consumed d.table document place := by
  constructor
  · rintro @⟨start, below, rest, name, out, ms, hdeepest, hout, hms, hvisits, hclaimed⟩
    rw [deepest_walk_sorted_iff hdocument h h'] at hdeepest
    rw [Json.at?_sorted hdocument] at hout
    obtain ⟨target, htarget, rfl⟩ := Option.map_eq_some_iff.1 hout
    have hwell := hdocument.at htarget
    obtain ⟨node, hnode, -⟩ := (Json.at?_sorted_eq_some_iff hwell).1 hms
    rw [Treatment.below_sorted _ hwell] at hvisits
    exact .member hdeepest htarget hnode hvisits hclaimed
  · rintro @⟨start, below, rest, name, target, node, hdeepest, htarget, hnode, hvisits, hclaimed⟩
    rw [← deepest_walk_sorted_iff hdocument h h'] at hdeepest
    have hwell := hdocument.at htarget
    have hout := Json.at?_sorted_of_eq_some hdocument htarget
    rw [← Treatment.below_sorted _ hwell] at hvisits
    exact .member hdeepest hout ((Json.at?_sorted_eq_some_iff hwell).2 ⟨node, hnode, rfl⟩) hvisits
      hclaimed

/-- **Walks of a document and of the sorted document show the same at every place**, up to the order
    of keys. -/
theorem sorted_schema_walk_sorted : m'.schema.sorted = m.schema.sorted := by
  rw [Json.sorted_eq_sorted_iff (wellFormed_walk hdocument.sorted h') (wellFormed_walk hdocument h)]
  intro place
  obtain ⟨start, below, rfl, hdeepest⟩ := m.exists_deepest place
  have hdeepest' := (deepest_walk_sorted_iff hdocument h h').2 hdeepest
  obtain ⟨target, htarget⟩ := exists_target_of_mem_starts h hdeepest.1
  have htarget' := Json.at?_sorted_of_eq_some hdocument htarget
  -- the start has its place in both results or in neither
  have hslot : m'.schema.at? start = none ↔ m.schema.at? start = none := by
    rw [lost_iff_consumed h (by simp [htarget]), lost_iff_consumed h' (by simp [htarget']),
      consumed_walk_sorted_iff hdocument h h']
  by_cases hlost : m.schema.at? start = none
  · have hlost' := hslot.2 hlost
    simp [Json.shapeAt, Json.at?_append, hlost, hlost']
  · have hwell := hdocument.at htarget
    have hmigrated := hwell.migrate d .schema
    have hmigratedSorted := hwell.sorted.migrate d .schema
    rw [shapeAt_walk h hdeepest htarget hlost,
      shapeAt_walk h' hdeepest' htarget' (fun hnone => hlost (hslot.1 hnone))]
    exact (Json.sorted_eq_sorted_iff hmigratedSorted hmigrated).1
      (d.sorted_migrate_sorted hwell .schema) below

end Results

end Dialect

/-! ### Runs -/

theorem Json.sorted_stamped_congr {v w : Json} (hv : v.WellFormed) (hw : w.WellFormed)
    (h : v.sorted = w.sorted) (id : String) : (v.stamped id).sorted = (w.stamped id).sorted := by
  cases v with
  | obj ms =>
    cases w with
    | obj ns =>
      have hmembers : Members.sorted ms = Members.sorted ns := obj.inj h
      have hid : Members.has ms "$id" = Members.has ns "$id" := by
        rw [← Members.has_sorted ms, hmembers, Members.has_sorted]
      have hvStamped := hv.stamped id
      have hwStamped := hw.stamped id
      simp only [stamped, stampRootId, hid] at hvStamped hwStamped ⊢
      split
      · exact h
      · rename_i hnone
        rw [if_neg hnone] at hvStamped hwStamped
        exact congrArg obj (Members.sorted_append_congr hmembers rfl hvStamped.1 hwStamped.1)
    | null | bool | num | str | arr => cases h
  | null | bool | num | str | arr =>
    cases w with
    | obj ns => cases h
    | null | bool | num | str | arr => exact h

namespace Transformer

/-- **The order of keys decides neither whether a run succeeds nor what it gives.**  Runs of
    documents that are equal up to the order of keys, at any depth, succeed together, and give
    schemas that are equal up to the order of keys and the same references, perhaps in another
    order. -/
theorem run_of_sorted_eq {t : Transformer} (hvalidator : t.validator = none)
    {document document' : Json} (hdocument : document.WellFormed)
    (hdocument' : document'.WellFormed) (h : document.sorted = document'.sorted) :
    ((∃ m, (t.run document).result = .ok m) ↔ ∃ m, (t.run document').result = .ok m) ∧
    ∀ m m', (t.run document).result = .ok m → (t.run document').result = .ok m' →
      m.schema.sorted = m'.schema.sorted ∧ m.resolved.Perm m'.resolved := by
  constructor
  · rw [exists_run_iff_exists_walk hvalidator, exists_run_iff_exists_walk hvalidator,
      ← Dialect.exists_walk_sorted_iff hdocument, h, Dialect.exists_walk_sorted_iff hdocument']
  · intro m m' hm hm'
    obtain ⟨schema, hwalk, hstamped⟩ := exists_walk_of_run hm
    obtain ⟨schema', hwalk', hstamped'⟩ := exists_walk_of_run hm'
    -- both are compared with a walk of the sorted document, which is the same for both
    obtain ⟨common, hcommon⟩ := (Dialect.exists_walk_sorted_iff hdocument).2 ⟨_, hwalk⟩
    have hcommon' := hcommon
    rw [h] at hcommon'
    constructor
    · have hschema := Dialect.sorted_schema_walk_sorted hdocument hwalk hcommon
      have hschema' := Dialect.sorted_schema_walk_sorted hdocument' hwalk' hcommon'
      rw [hstamped, hstamped']
      exact Json.sorted_stamped_congr (Dialect.wellFormed_walk hdocument hwalk)
        (Dialect.wellFormed_walk hdocument' hwalk') (hschema.symm.trans hschema') t.rootId
    · have hresolved := Dialect.resolved_walk_sorted_perm hdocument hwalk hcommon
      have hresolved' := Dialect.resolved_walk_sorted_perm hdocument' hwalk' hcommon'
      exact hresolved.symm.trans hresolved'

/-- A document in which one reference leads into the definition that another leads to. -/
def overlappingDocument : Json :=
  .obj [("properties", .obj [("x", .obj [("$ref", .str "#/definitions/a")]),
      ("y", .obj [("$ref", .str "#/definitions/a/properties/k")])]),
    ("definitions", .obj [("a", .obj [("x-display", .str "card"),
      ("x-props", .obj [("dense", .bool true), ("color", .str "red")]),
      ("properties", .obj [("k", .obj [("x-display", .str "chip")])])])])]

/-- The same with the keys in another order, at every depth. -/
def reorderedDocument : Json :=
  .obj [("definitions", .obj [("a", .obj [("properties", .obj [("k", .obj
        [("x-display", .str "chip")])]),
      ("x-props", .obj [("color", .str "red"), ("dense", .bool true)]),
      ("x-display", .str "card")])]),
    ("properties", .obj [("y", .obj [("$ref", .str "#/definitions/a/properties/k")]),
      ("x", .obj [("$ref", .str "#/definitions/a")])])]

def overlappingMigration : Migration where
  schema := .obj [("properties", .obj [("x", .obj [("$ref", .str "#/definitions/a")]),
      ("y", .obj [("$ref", .str "#/definitions/a/properties/k")])]),
    ("definitions", .obj [("a", .obj [
      ("properties", .obj [("k", .obj [("layout", .str "chip")])]),
      ("layout", .obj [("comp", .str "card"),
        ("props", .obj [("dense", .bool true), ("color", .str "red")])])])]),
    ("$id", .str "_jl")]
  resolved := ["#/definitions/a", "#/definitions/a/properties/k"]

def reorderedMigration : Migration where
  schema := .obj [("definitions", .obj [("a", .obj [
      ("properties", .obj [("k", .obj [("layout", .str "chip")])]),
      ("layout", .obj [("comp", .str "card"),
        ("props", .obj [("color", .str "red"), ("dense", .bool true)])])])]),
    ("properties", .obj [("y", .obj [("$ref", .str "#/definitions/a/properties/k")]),
      ("x", .obj [("$ref", .str "#/definitions/a")])]),
    ("$id", .str "_jl")]
  resolved := ["#/definitions/a/properties/k", "#/definitions/a"]

theorem run_of_sorted_eq_overlappingDocument :
    overlappingDocument.WellFormed ∧ reorderedDocument.WellFormed ∧
      overlappingDocument.sorted = reorderedDocument.sorted ∧
      (run ⟨⟨Table.builtin, {}⟩, defaultRootId, none⟩ overlappingDocument).result
        = .ok overlappingMigration ∧
      (run ⟨⟨Table.builtin, {}⟩, defaultRootId, none⟩ reorderedDocument).result
        = .ok reorderedMigration ∧
      overlappingMigration.schema.sorted = reorderedMigration.schema.sorted ∧
      overlappingMigration.resolved.Perm reorderedMigration.resolved := by
  have hdocument : overlappingDocument.WellFormed := by
    simp [overlappingDocument, Json.WellFormed, Json.MembersWellFormed, Members.keys]
  have hdocument' : reorderedDocument.WellFormed := by
    simp [reorderedDocument, Json.WellFormed, Json.MembersWellFormed, Members.keys]
  have hsorted : overlappingDocument.sorted = reorderedDocument.sorted := by decide +kernel
  have hrun : (run ⟨⟨Table.builtin, {}⟩, defaultRootId, none⟩ overlappingDocument).result
      = .ok overlappingMigration := Trace.result_eq_ok_of_toOption (by decide +kernel)
  have hrun' : (run ⟨⟨Table.builtin, {}⟩, defaultRootId, none⟩ reorderedDocument).result
      = .ok reorderedMigration := Trace.result_eq_ok_of_toOption (by decide +kernel)
  exact ⟨hdocument, hdocument', hsorted, hrun, hrun',
    (run_of_sorted_eq rfl hdocument hdocument' hsorted).2 _ _ hrun hrun'⟩

end Transformer

end Relayout
