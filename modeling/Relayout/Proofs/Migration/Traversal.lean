/-
  Relayout/Proofs/Migration/Traversal.lean
  ========================================
  **Migrating in one pass is visiting first and building apart.**

  A traversal builds values while it hands on its state.  `Walk.Does` says of a part of it that it
  takes the steps of a list, logging and failing as they do and leaving the state that they leave,
  and that it gives one value, whatever state it takes over.  Parts that follow each other take
  their steps one after the other (`Walk.Does.bind`).  Rebuilding a value takes the steps of its
  survey and gives the migrated value (`Dialect.rebuilds`), so that a traversal is a walk, its
  log included (`Dialect.traverse_eq_walk`).
-/
import Relayout.Migration.Traversal
import Relayout.Proofs.Extension.Composition
import Relayout.Proofs.Json.KeyOrder
import Relayout.Proofs.Json.Variation
import Relayout.Proofs.Migration.Resolved
import Relayout.Proofs.Migration.Settled
import Relayout.Proofs.Migration.Steps

namespace Relayout

/-! ### Computations with a log -/

namespace Trace

variable {α β γ δ : Type}

theorem after_bind (events : List Event) (t : Trace α) (f : α → Trace β) :
    (t.after events).bind f = (t.bind f).after events := by
  obtain ⟨log, result⟩ := t
  cases result with
  | ok a => simp [Trace.bind, Trace.after]
  | error e => rfl

theorem bind_pure (t : Trace α) : t.bind .pure = t := by
  obtain ⟨log, result⟩ := t
  cases result with
  | ok a => simp [Trace.bind, Trace.after, Trace.pure]
  | error e => rfl

theorem bind_assoc (t : Trace α) (f : α → Trace β) (g : β → Trace γ) :
    (t.bind f).bind g = t.bind (fun a => (f a).bind g) := by
  obtain ⟨log, result⟩ := t
  cases result with
  | ok a => exact after_bind log (f a) g
  | error e => rfl

/-- Two computations log the same, and either fail alike or give related results. -/
inductive Matches (R : α → β → Prop) : Trace α → Trace β → Prop where
  | ok (events : List Event) {a : α} {b : β} :
    R a b → Matches R ⟨events, .ok a⟩ ⟨events, .ok b⟩
  | error (events : List Event) (e : MigrationError) :
    Matches R ⟨events, .error e⟩ ⟨events, .error e⟩

namespace Matches

variable {R : α → β → Prop} {S : γ → δ → Prop} {t : Trace α} {u : Trace β}

theorem after (h : Matches R t u) (events : List Event) :
    Matches R (t.after events) (u.after events) := by
  cases h with
  | ok log hR => exact .ok (events ++ log) hR
  | error log e => exact .error (events ++ log) e

theorem bind (h : Matches R t u) {f : α → Trace γ} {g : β → Trace δ}
    (hfg : ∀ a b, R a b → Matches S (f a) (g b)) : Matches S (t.bind f) (u.bind g) := by
  cases h with
  | ok log hR => exact (hfg _ _ hR).after log
  | error log e => exact .error log e

theorem imp {R' : α → β → Prop} (h : Matches R t u) (himp : ∀ a b, R a b → R' a b) :
    Matches R' t u := by
  cases h with
  | ok log hR => exact .ok log (himp _ _ hR)
  | error log e => exact .error log e

theorem eq {t u : Trace α} (h : Matches Eq t u) : t = u := by
  cases h with
  | ok log heq => rw [heq]
  | error => rfl

end Matches

end Trace

/-! ### Steps -/

section TakeSteps

variable {visit : Pointer → Json → Progress → Trace Progress} {document : Json}

theorem takeSteps_append (steps todo : List Step) (s : Progress) :
    takeSteps visit document (steps ++ todo) s
      = (takeSteps visit document steps s).bind (takeSteps visit document todo) := by
  induction steps generalizing s with
  | nil => rfl
  | cons step steps ih =>
    rw [List.cons_append]
    cases step with
    | note event => rw [takeSteps, takeSteps, ih, Trace.after_bind]
    | fail error => rfl
    | follow ref source =>
      rw [takeSteps, takeSteps]
      split
      · rw [ih, Trace.after_bind]
      · split
        · split
          · rfl
          · split
            · simp only [Trace.after_bind, Trace.bind_assoc, ih]
            · exact ih _
        · exact ih _

theorem takeSteps_notes {α : Type} (event : α → Event) (xs : List α) (s : Progress) :
    takeSteps visit document (xs.map (fun x => .note (event x))) s = ⟨xs.map event, .ok s⟩ := by
  induction xs with
  | nil => rfl
  | cons x xs ih => rw [List.map_cons, takeSteps, ih]; rfl

/-- A reference into the same document is all that is followed. -/
theorem takeSteps_follow {ref fragment : String} (hfragment : internalFragment? ref = some fragment)
    (source : Pointer) (s : Progress) :
    takeSteps visit document [.follow ref source] s =
      if ref ∈ s.unseen then
        match locate? document fragment with
        | none => .fail (.unresolvedRef ref source.fragment)
        | some (p, target) =>
          if p.isLazy then
            (visit p target ((s.meet ref).reach ref)).after [.migratingDefinition ref]
          else .pure (s.meet ref)
      else .pure s := by
  have hdone : takeSteps visit document [] = Trace.pure := rfl
  rw [takeSteps]
  simp only [hfragment]
  cases locate? document fragment with
  | none => rfl
  | some found => simp only [hdone, Trace.bind_pure]

end TakeSteps

/-- What the steps of a survey see of the state of a traversal. -/
def Traversal.progress (document : Json) (s : Traversal) : Progress where
  unseen := document.refTexts.eraseDups.filter (· ∉ s.visited)
  reached := s.reached
  arena := s.arena

namespace Traversal

variable {document : Json} {ref : String}

theorem mem_unseen_iff (s : Traversal) (href : ref ∈ document.refTexts) :
    ref ∈ (s.progress document).unseen ↔ ref ∉ s.visited := by
  simp [progress, href]

theorem progress_meet (s : Traversal) (ref : String) :
    (s.meet ref).progress document = (s.progress document).meet ref := by
  simp only [progress, meet, Progress.meet, List.filter_filter, List.mem_cons, not_or,
    Progress.mk.injEq, and_self, and_true]
  apply List.filter_congr
  intro text _
  simp

end Traversal

/-- A part of a traversal takes some steps and gives a value. -/
def Walk.Does {α : Type} (visit : Pointer → Json → Progress → Trace Progress) (document : Json)
    (w : Walk α) (steps : List Step) (a : α) : Prop :=
  ∀ s : Traversal, (w s).Matches (fun r t => r.1 = a ∧ r.2.progress document = t)
    (takeSteps visit document steps (s.progress document))

namespace Walk

variable {visit : Pointer → Json → Progress → Trace Progress} {document : Json} {α β : Type}

open Dialect (labelSteps allLabelSteps)

theorem does_pure (a : α) : (pure a : Walk α).Does visit document [] a :=
  fun _ => .ok [] ⟨rfl, rfl⟩

/-- Parts that follow each other take their steps one after the other. -/
theorem Does.bind {w : Walk α} {f : α → Walk β} {steps todo : List Step} {a : α} {b : β}
    (hw : w.Does visit document steps a) (hf : (f a).Does visit document todo b) :
    (w >>= f).Does visit document (steps ++ todo) b := by
  intro s
  rw [takeSteps_append]
  refine (hw s).bind ?_
  rintro ⟨_, t⟩ _ ⟨rfl, rfl⟩
  exact hf t

theorem Does.map {w : Walk α} {steps : List Step} {a : α} (hw : w.Does visit document steps a)
    (f : α → β) : (do let x ← w; return f x : Walk β).Does visit document steps (f a) := by
  have h := hw.bind (f := fun x => pure (f x)) (does_pure (f a))
  rwa [List.append_nil] at h

theorem does_log (event : Event) : (log event).Does visit document [.note event] () :=
  fun _ => .ok [event] ⟨rfl, rfl⟩

theorem does_fail (error : MigrationError) (a : α) :
    (fail error : Walk α).Does visit document [.fail error] a :=
  fun _ => .error [] error

/-- A mapping that fails ends the part that it begins. -/
theorem does_ofMapping_error {path : String} {m : Mapping} {e : MigrationError}
    (he : m.result = .error e) (f : Mapped → Walk α) (todo : List Step) (a : α) :
    (ofMapping path m >>= f).Does visit document
      ((m.applied.map (fun rule => .note (.applyingRule path rule)) ++ [.fail e]) ++ todo) a := by
  intro s
  have hmapping : (ofMapping path m >>= f) s = ⟨m.applied.map (.applyingRule path), .error e⟩ := by
    change Trace.bind (ofMapping path m s) _ = _
    simp [ofMapping, he, Trace.bind, Except.map]
  rw [hmapping, List.append_assoc, takeSteps_append, takeSteps_notes (.applyingRule path)]
  simpa [Trace.bind, takeSteps, Trace.fail, Trace.after] using
    Trace.Matches.error (m.applied.map (.applyingRule path)) e

theorem does_ofMapping_ok {path : String} {m : Mapping} {mapped : Mapped}
    (h : m.result = .ok mapped) :
    (ofMapping path m).Does visit document
      (m.applied.map (fun rule => .note (.applyingRule path rule))) mapped := by
  intro s
  rw [takeSteps_notes (.applyingRule path), ofMapping, h]
  exact .ok _ ⟨rfl, rfl⟩

/-! ### Labels -/

theorem does_labelElement (p : Pointer) (x : Json) :
    (labelElement p x).Does visit document (labelSteps p x) x.withLabel := by
  cases x with
  | null | bool | num | str | arr => exact does_pure _
  | obj element =>
    rw [labelElement, labelSteps, Json.withLabel, attachLabel]
    cases hlabelling : labelling element with
    | keep => exact does_pure _
    | ambiguous => exact (does_log _).map (fun _ => Json.obj element)
    | attach label =>
      have hnew : "oneOfLayout" ∉ Members.keys element := by
        rw [← Members.has_iff_mem_keys]
        intro hhas
        simp [labelling, hhas] at hlabelling
      have hinsert := Members.insert_append_of_not_mem hnew [] (OneOfLayout.mk label).toJson
      rw [List.append_nil] at hinsert
      simp only [hinsert, Labelling.label?]
      exact (does_log _).map (fun _ => Json.obj _)

theorem does_labelElements (p : Pointer) (i : Nat) (xs : List Json) :
    (labelElements p i xs).Does visit document (allLabelSteps p i xs) (xs.map Json.withLabel) := by
  induction xs generalizing i with
  | nil => exact does_pure []
  | cons x xs ih =>
    exact (does_labelElement (p.element i) x).bind ((ih (i + 1)).map (x.withLabel :: ·))

/-! ### References -/

/-- A way to visit definitions does what the steps of a visit do, and keeps what the target is
    migrated to. -/
def Visits (visit : Pointer → Json → Progress → Trace Progress) (document : Json)
    (w : Pointer → Json → Walk Unit) : Prop :=
  ∀ p target, document.at? p.place = some target → ∀ s : Traversal,
    (w p target s).Matches (fun r t => r.2.progress document = t)
      (visit p target (s.progress document))

theorem followRef_run (w : Pointer → Json → Walk Unit) {ref fragment : String}
    (hfragment : internalFragment? ref = some fragment) (source : Pointer) (s : Traversal) :
    followRef w document ref source s =
      if ref ∈ s.visited then .pure ((), s)
      else
        match locate? document fragment with
        | none => .fail (.unresolvedRef ref source.fragment)
        | some (p, target) =>
          if p.isLazy then
            (w p target ((s.meet ref).reach ref)).after [.migratingDefinition ref]
          else .pure ((), s.meet ref) := by
  simp only [followRef, hfragment]
  change (ite (ref ∈ s.visited) _ _ : Walk Unit) s = _
  split
  · rfl
  · cases locate? document fragment with
    | none => rfl
    | some found =>
      obtain ⟨p, target⟩ := found
      by_cases hlazy : p.isLazy = true
      · simp only [hlazy, if_true]
        rfl
      · simp only [hlazy]
        rfl

/-- A way to follow references takes the one step for each that the document has. -/
def Follows (visit : Pointer → Json → Progress → Trace Progress) (document : Json)
    (follow : String → Pointer → Walk Unit) : Prop :=
  ∀ ref ∈ document.refTexts, ∀ source,
    (follow ref source).Does visit document [.follow ref source] ()

theorem follows_followRef {w : Pointer → Json → Walk Unit} (hw : Visits visit document w) :
    Follows visit document (followRef w document) := by
  intro ref href source s
  cases hfragment : internalFragment? ref with
  | none =>
    rw [followRef, takeSteps, hfragment]
    exact does_log _ s
  | some fragment =>
    rw [followRef_run w hfragment, takeSteps_follow hfragment]
    by_cases hvisited : ref ∈ s.visited
    · rw [if_pos hvisited, if_neg (fun hunseen => (s.mem_unseen_iff href).1 hunseen hvisited)]
      exact .ok [] ⟨rfl, rfl⟩
    · rw [if_neg hvisited, if_pos ((s.mem_unseen_iff href).2 hvisited), ← s.progress_meet ref]
      cases hlocate : locate? document fragment with
      | none => exact .error [] _
      | some found =>
        obtain ⟨p, target⟩ := found
        by_cases hlazy : p.isLazy = true
        · have hat := (locate?_eq_some hfragment hlocate).2
          have hvisit := hw p target hat ((s.meet ref).reach ref)
          change Trace.Matches _ (ite (p.isLazy = true) _ _) (ite (p.isLazy = true) _ _)
          rw [if_pos hlazy, if_pos hlazy]
          exact (hvisit.after _).imp (fun _ _ h => ⟨rfl, h⟩)
        · change Trace.Matches _ (ite (p.isLazy = true) _ _) (ite (p.isLazy = true) _ _)
          rw [if_neg hlazy, if_neg hlazy]
          exact .ok [] ⟨rfl, rfl⟩

end Walk

/-! ### Nodes -/

namespace Table

variable {table : Table} {s : Site} {mapped : Mapped}

/-- What a node is mapped to does not depend on where the node stands. -/
theorem result_map_of_path {path : String} {node : Members} {detector : Template.Detector}
    (h : (table.map ⟨path, node, detector⟩).result = .ok mapped) (path' : String) :
    (table.map ⟨path', node, detector⟩).result = .ok mapped := by
  by_cases hconsumed : table.consumed node = []
  · rw [result_map_of_unclaimed hconsumed] at h ⊢
    exact h
  · obtain ⟨hlayout, happlicable⟩ := (exists_mapped_iff.1 ⟨mapped, h⟩).resolve_left hconsumed
    have hfits (rule : Rule) (hrule : rule ∈ table.rules) (hclaims : rule.keys.any node.has = true) :
        rule.Satisfied detector node := happlicable rule (List.mem_filter.2 ⟨hrule, hclaims⟩)
    -- what the rules compose does not look at the path
    have hmap (path : String) : (table.map ⟨path, node, detector⟩).result
        = .ok ⟨(Rule.composed ⟨"", node, detector⟩ table.rules).finalize, table.consumed node⟩ :=
      result_map_eq hconsumed hlayout hfits
    rw [hmap] at h ⊢
    exact h

theorem consumed_of_result_map (h : (table.map s).result = .ok mapped) :
    mapped.consumed = table.consumed s.node := by
  by_cases hconsumed : table.consumed s.node = []
  · rw [result_map_of_unclaimed hconsumed, Except.ok.injEq] at h
    rw [← h, hconsumed]
  · obtain ⟨hlayout, -⟩ := (exists_mapped_iff.1 ⟨mapped, h⟩).resolve_left hconsumed
    rw [result_map_of_rules hconsumed hlayout] at h
    cases hrules : (applyRules s (table.applicable s.node) {}).2 with
    | ok layout =>
      rw [hrules] at h
      cases h
      rfl
    | error e =>
      rw [hrules] at h
      cases h

end Table

namespace Dialect

variable {d : Dialect}

theorem migrateMembers_eq_filterMap (ms : Members) :
    d.migrateMembers ms = ms.filterMap (fun m => if d.table.recognizes m.1 then none
      else some (m.1, d.migrate (Role.ofKeyword m.1) m.2)) := by
  induction ms with
  | nil => rfl
  | cons m ms ih =>
    obtain ⟨k, v⟩ := m
    cases hclaimed : d.table.recognizes k <;> simp [migrateMembers, hclaimed, ih]

/-- Members put together from values that were rebuilt are the migrated members. -/
theorem assemble_eq {path : String} {ms : Members} {mapped : Mapped}
    (h : (d.mapping path ms).result = .ok mapped) {rewritten : Members}
    (hrewritten : ∀ m ∈ ms,
      (rewritten.get? m.1).getD m.2 = d.migrate (Role.ofKeyword m.1) m.2) :
    mapped.assemble rewritten ms = d.migrateMembers ms ++ d.layoutMember ms := by
  have hkept : (ms.filterMap fun m => if mapped.consumed.contains m.1 then none
      else some (m.1, (rewritten.get? m.1).getD m.2)) = d.migrateMembers ms := by
    rw [migrateMembers_eq_filterMap]
    apply List.filterMap_congr
    intro m hm
    have hconsumed : mapped.consumed.contains m.1 = d.table.recognizes m.1 := by
      have hkey : m.1 ∈ Members.keys ms := List.mem_map_of_mem hm
      rw [Table.consumed_of_result_map h, Bool.eq_iff_iff, List.contains_iff_mem, Table.consumed,
        List.mem_filter, and_iff_right hkey]
    rw [hconsumed, hrewritten m hm]
  have hlayout : d.table.layout? ⟨"", ms, d.detector⟩ = mapped.layout := by
    have hroot := Table.result_map_of_path h ""
    rw [Table.layout?, hroot]
  rw [Mapped.assemble, hkept, layoutMember, hlayout]
  cases hnone : mapped.layout with
  | none => exact (List.append_nil _).symm
  | some layout =>
    -- a node that is mapped to a layout has none, so that the layout comes last
    rw [hnone] at hlayout
    have hnew : "layout" ∉ (d.migrateMembers ms).keys := by
      rw [keys_migrateMembers]
      intro hmem
      exact (Table.of_layout?_eq_some hlayout).2 (List.mem_filter.1 hmem).1
    have hinsert := Members.insert_append_of_not_mem hnew [] layout.toJson
    rwa [List.append_nil] at hinsert

/-- Rebuilding a value, in whatever role, takes the steps of its survey and gives what it is
    migrated to. -/
def Rebuilds (d : Dialect) (visit : Pointer → Json → Progress → Trace Progress) (document : Json)
    (follow : String → Pointer → Walk Unit) (v : Json) : Prop :=
  ∀ role p,
    (d.rebuild follow role p v).Does visit document (d.survey role p v) (d.migrate role v)

section Rebuild

variable {visit : Pointer → Json → Progress → Trace Progress} {document : Json}
  {follow : String → Pointer → Walk Unit}

theorem does_followRefOf (hfollow : Walk.Follows visit document follow) {p : Pointer} {ms : Members} (hms : Json.memberRefTexts ms ⊆ document.refTexts) :
    (Walk.followRefOf follow p ms).Does visit document (refSteps p ms) () := by
  rw [Walk.followRefOf, refSteps]
  cases hget : ms.get? "$ref" with
  | none => exact Walk.does_pure ()
  | some v =>
    cases v with
    | str ref =>
      exact hfollow ref (hms (Json.mem_memberRefTexts (by rw [hget]; rfl))) p
    | null | bool | num | arr | obj => exact Walk.does_fail _ ()

theorem lookup_rebuildMembers (p : Pointer) (ms : Members) (keyword : String) :
    (d.rebuildMembers follow p ms).lookup keyword
      = (ms.get? keyword).map (d.rebuild follow (Role.ofKeyword keyword) (p.push keyword)) :=
  Members.lookup_eq_map_get? (d.rebuildMembers follow p)
    (fun key => d.rebuild follow (Role.ofKeyword key) (p.push key)) rfl (fun _ _ _ => rfl) ms
    keyword

/-- The values of keywords, in the order given, as they are migrated. -/
def migratedValues (d : Dialect) (ms : Members) (keywords : List String) : Members :=
  keywords.filterMap fun key =>
    (ms.get? key).map (fun v => (key, d.migrate (Role.ofKeyword key) v))

theorem get?_migratedValues (ms : Members) (keywords : List String) (key : String) :
    (d.migratedValues ms keywords).get? key
      = if key ∈ keywords then (ms.get? key).map (d.migrate (Role.ofKeyword key)) else none := by
  induction keywords with
  | nil => rfl
  | cons keyword keywords ih =>
    rw [migratedValues, List.filterMap_cons]
    rw [migratedValues] at ih
    by_cases hkey : keyword = key
    · subst hkey
      cases hget : ms.get? keyword <;> simp [ih, hget, Members.get?]
    · have hne : ¬ key = keyword := fun heq => hkey heq.symm
      cases hget : ms.get? keyword <;> simp [ih, Members.get?, hkey, hne]

/-- Rebuilding the values of a node one keyword after the other takes the steps under each. -/
theorem does_inOrder {p : Pointer} {ms : Members}
    (hms : ∀ m ∈ ms, d.Rebuilds visit document follow m.2) (keywords : List String) :
    (Walk.inOrder (d.rebuildMembers follow p ms) keywords).Does visit document
      (keywords.flatMap (fun keyword => ((d.surveyMembers p ms).lookup keyword).getD []))
      (d.migratedValues ms keywords) := by
  induction keywords with
  | nil => exact Walk.does_pure []
  | cons keyword keywords ih =>
    rw [Walk.inOrder, lookup_rebuildMembers, List.flatMap_cons, lookup_surveyMembers,
      migratedValues, List.filterMap_cons]
    cases hget : ms.get? keyword with
    | none => exact ih
    | some v =>
      have hv := hms _ (Members.mem_of_get?_eq_some hget) (Role.ofKeyword keyword) (p.push keyword)
      exact hv.bind (ih.map ((keyword, _) :: ·))

theorem does_rebuildNode (hfollow : Walk.Follows visit document follow) {p : Pointer}
    {ms : Members} (hnodup : ms.keys.Nodup)
    (hrefs : Json.memberRefTexts ms ⊆ document.refTexts)
    (hms : ∀ m ∈ ms, d.Rebuilds visit document follow m.2) :
    (d.rebuildNode follow p ms (d.rebuildMembers follow p ms)).Does visit document
      (d.ruleSteps p ms ++ inTraversalOrder (d.surveyMembers p ms) ++ refSteps p ms)
      (.obj (d.migrateMembers ms ++ d.layoutMember ms)) := by
  rw [rebuildNode, ruleSteps, List.append_assoc]
  cases hresult : (d.mapping p.text ms).result with
  | error e => exact Walk.does_ofMapping_error hresult _ _ _
  | ok mapped =>
    have hassemble : mapped.assemble (d.migratedValues ms traversalOrder) ms
        = d.migrateMembers ms ++ d.layoutMember ms := by
      apply assemble_eq hresult
      rintro ⟨key, v⟩ hmem
      rw [get?_migratedValues, (Members.get?_eq_some_iff hnodup).2 hmem]
      split
      · rfl
      · rename_i hkeyword
        have hrole : Role.ofKeyword key = .verbatim := by
          by_contra hrole
          exact hkeyword (Json.mem_traversalOrder hrole)
        rw [hrole, migrate_verbatim]
        rfl
    rw [← hassemble]
    have hvalues := does_inOrder (p := p) hms traversalOrder
    have href := does_followRefOf hfollow (p := p) hrefs
    simp only [List.append_nil]
    exact (Walk.does_ofMapping_ok hresult).bind
      (hvalues.bind (href.map (fun _ => Json.obj (mapped.assemble _ ms))))

theorem does_rebuildEntries {p : Pointer} {ms : Members}
    (hms : ∀ m ∈ ms, d.Rebuilds visit document follow m.2) :
    (d.rebuildEntries follow p ms).Does visit document (d.surveyEntries p ms)
      (d.migrateEntries ms) := by
  induction ms with
  | nil => exact Walk.does_pure []
  | cons m ms ih =>
    obtain ⟨hm, hms⟩ := List.forall_mem_cons.1 hms
    exact (hm .schema _).bind ((ih hms).map ((m.1, _) :: ·))

theorem does_rebuildElements {p : Pointer} {xs : List Json}
    (hxs : ∀ x ∈ xs, d.Rebuilds visit document follow x) (i : Nat) :
    (d.rebuildElements follow p i xs).Does visit document (d.surveyElements p i xs)
      (d.migrateElements xs) := by
  induction xs generalizing i with
  | nil => exact Walk.does_pure []
  | cons x xs ih =>
    obtain ⟨hx, hxs⟩ := List.forall_mem_cons.1 hxs
    exact (hx .schema _).bind ((ih hxs (i + 1)).map (_ :: ·))

/-- **A value is rebuilt as it is surveyed and migrated**, by induction on the value. -/
theorem rebuilds (hfollow : Walk.Follows visit document follow) {v : Json} (hv : v.WellFormed)
    (hrefs : v.refTexts ⊆ document.refTexts) : d.Rebuilds visit document follow v := by
  induction v using Json.induction_on with
  | null | bool | num | str =>
    intro role p
    cases role <;> exact Walk.does_pure _
  | arr xs ih =>
    have helements : ∀ x ∈ xs, d.Rebuilds visit document follow x := by
      intro x hx
      obtain ⟨i, hi⟩ := List.mem_iff_getElem?.1 hx
      exact ih x hx (Json.wellFormed_arr_iff.1 hv x hx)
        (List.Subset.trans (Json.refTexts_subset_elementRefTexts hi) hrefs)
    intro role p
    cases role with
    | schemaList | schemaOrList => exact (does_rebuildElements helements 0).map Json.arr
    | labelledList =>
      exact (does_rebuildElements helements 0).bind
        ((Walk.does_labelElements p 0 (d.migrateElements xs)).map Json.arr)
    | schema | schemaMap | verbatim => exact Walk.does_pure _
  | obj ms ih =>
    obtain ⟨hnodup, hwell⟩ := Json.wellFormed_obj_iff.1 hv
    have hmembers : ∀ m ∈ ms, d.Rebuilds visit document follow m.2 := by
      intro m hm
      have hget := (Members.get?_eq_some_iff hnodup).2 hm
      exact ih m hm (hwell m hm)
        (List.Subset.trans (Json.refTexts_subset_memberRefTexts hget) hrefs)
    intro role p
    cases role with
    | schema | schemaOrList => exact does_rebuildNode hfollow hnodup hrefs hmembers
    | schemaMap => exact (does_rebuildEntries hmembers).map Json.obj
    | schemaList | labelledList | verbatim => exact Walk.does_pure _

end Rebuild

/-! ### Documents -/

section Document

variable {document : Json} (hdocument : document.WellFormed)

include hdocument

/-- To any depth, a visit takes the steps of its survey as references are resolved to that
    depth. -/
theorem does_visitTo (depth : Nat) {p : Pointer} {v : Json} (hv : v.WellFormed)
    (hrefs : v.refTexts ⊆ document.refTexts) (s : Traversal) :
    (d.visitTo document depth p v s).Matches
      (fun r t => r.1 = d.migrate .schema v ∧ r.2.progress document = t)
      (d.resolve document depth (d.survey .schema p v) (s.progress document)) := by
  induction depth generalizing p v s with
  | zero =>
    have hvisit : Walk.Visits (fun _ _ progress => .pure progress) document (fun _ _ => pure ()) :=
      fun _ _ _ s => .ok [] rfl
    exact rebuilds (Walk.follows_followRef hvisit) hv hrefs .schema p s
  | succ depth ih =>
    have hvisit : Walk.Visits (d.visitWith (d.resolve document depth)) document
        (fun q target => do
          let schema ← d.visitTo document depth q target
          modify (·.store q schema)) := by
      intro q target hat s
      refine (ih (hdocument.at hat) (Json.refTexts_subset_of_at? hat) s).bind ?_
      rintro ⟨_, t⟩ _ ⟨rfl, rfl⟩
      exact .ok [] rfl
    exact rebuilds (Walk.follows_followRef hvisit) hv hrefs .schema p s

/-- **A traversal is a walk**: it gives the same result, or fails in the same way, and logs the
    same. -/
theorem traverse_eq_walk : d.traverse document = d.walk document := by
  have hroot := does_visitTo hdocument document.refTexts.eraseDups.length (d := d) (p := .root)
    hdocument (List.Subset.refl _) {}
  have hstart : Traversal.progress document {} = { unseen := document.refTexts.eraseDups } := by
    simp [Traversal.progress]
  rw [hstart] at hroot
  refine Trace.Matches.eq (hroot.bind ?_)
  rintro ⟨_, t⟩ _ ⟨rfl, rfl⟩
  exact .ok _ rfl

end Document

end Dialect

end Relayout
