/-
  Relayout/Proofs/Migration/Spelling.lean
  =======================================
  **A definition is migrated once for each spelling of it.**

  Whether a reference has been met is asked of its text, and one place has many texts: any
  character of a fragment may be written as a percent escape.  So the visits that a run
  begins at a place are as many as the texts for it that can be reached, and no definition
  is migrated twice exactly if no two of those texts are for one place
  (`Transformer.visits_run`).  Two of them may be (`Transformer.migrated_twice`).
-/
import Mathlib.Data.Set.Card
import Relayout.Proofs.Migration.Resolved
import Relayout.Proofs.Migration.Termination

namespace Relayout

open DepthFirst (Reachable)

/-- The place that a reference leads to. -/
def placeOf? (ref : String) : Option Place := (Pointer.ofRef? ref).map Pointer.place

/-- No two references into definitions that can be reached lead to one place. -/
def Json.SpelledOnce (document : Json) : Prop :=
  ∀ ref, Reachable document.targetRefs document.definitionRefs ref →
    ∀ ref', Reachable document.targetRefs document.definitionRefs ref' →
      placeOf? ref = placeOf? ref' → ref = ref'

/-- Among different texts, those for a place are counted by it. -/
theorem count_map_placeOf? {refs : List String} (hnodup : refs.Nodup) (place : Place) :
    (refs.map placeOf?).count (some place)
      = {ref | ref ∈ refs ∧ placeOf? ref = some place}.ncard := by
  have hset : {ref | ref ∈ refs ∧ placeOf? ref = some place}
      = ↑(refs.filter (fun ref => placeOf? ref == some place)).toFinset := by
    ext ref
    simp
  rw [hset, Set.ncard_coe_finset, List.toFinset_card_of_nodup (hnodup.filter _),
    ← List.countP_eq_length_filter, List.count, List.countP_map]
  rfl

/-! ### The visits of a run that succeeds -/

theorem Dialect.visitedBy_of_walk {d : Dialect} {document : Json} {m : Migration}
    (h : (d.walk document).result = .ok m) : visitedBy (d.walk document).events = m.resolved := by
  have hfollow := h
  rw [walk_eq, Trace.bind_result_eq_ok_iff] at hfollow
  obtain ⟨s, hs, hm⟩ := hfollow
  cases hm
  rw [visitedBy_walk]
  exact ((d.runs_follow document).length_visitedBy_le (d.counts_firstStage document)).2 s hs

namespace Transformer

variable {t : Transformer} {document : Json} {m : Migration}

theorem visitedBy_of_run (h : (t.run document).result = .ok m) :
    visitedBy (t.run document).events = m.resolved := by
  rw [run, Trace.after_result] at h
  cases hcheck : t.precheck document with
  | error e =>
    rw [hcheck] at h
    cases h
  | ok _ =>
    simp only [hcheck] at h
    obtain ⟨walked, hwalk, hm⟩ := Trace.bind_result_eq_ok_iff.1 h
    cases hm
    have hevents : (t.run document).events
        = [.started t.rootId] ++ (t.dialect.walk document).events
          ++ [.migrated walked.resolved.length] := by
      simp [run, hcheck, Trace.bind, hwalk, Trace.after]
    rw [hevents, visitedBy_append, visitedBy_append, Dialect.visitedBy_of_walk hwalk]
    exact List.append_nil walked.resolved

/-- **The visits of definitions**: a run that succeeds has begun one for each entry of its list, at
    each place as many as there are texts for it that can be reached.  No two are at one place
    exactly if each such place has one text. -/
theorem visits_run (h : (t.run document).result = .ok m) :
    visitedBy (t.run document).events = m.resolved ∧
      (∀ place, (m.resolved.map placeOf?).count (some place)
        = {ref | Reachable document.targetRefs document.definitionRefs ref ∧
            placeOf? ref = some place}.ncard) ∧
      ((m.resolved.map placeOf?).Nodup ↔ document.SpelledOnce) := by
  obtain ⟨schema, hwalk, -⟩ := exists_walk_of_run h
  have hsearch := Dialect.search_of_walk hwalk
  have hnodup : m.resolved.Nodup := hsearch.nodup List.nodup_nil
  refine ⟨visitedBy_of_run h, fun place => ?_, ?_⟩
  · rw [count_map_placeOf? hnodup]
    simp only [hsearch.mem_iff_reachable]
  · rw [List.nodup_map_iff_inj_on hnodup]
    simp only [hsearch.mem_iff_reachable, Json.SpelledOnce]

/-- A definition that two references spell in two ways. -/
def spelledTwiceDocument : Json :=
  .obj [("properties", .obj [("a", .obj [("$ref", .str "#/definitions/my%20def")]),
      ("b", .obj [("$ref", .str "#/definitions/my def")])]),
    ("definitions", .obj [("my def", .obj [("x-display", .str "card")])])]

/-- What a run makes of it: the definition is listed twice. -/
def spelledTwiceMigration : Migration where
  schema := .obj [("properties", .obj [("a", .obj [("$ref", .str "#/definitions/my%20def")]),
      ("b", .obj [("$ref", .str "#/definitions/my def")])]),
    ("definitions", .obj [("my def", .obj [("layout", .str "card")])]), ("$id", .str "_jl")]
  resolved := ["#/definitions/my%20def", "#/definitions/my def"]

theorem result_run_spelledTwice :
    (run ⟨⟨Table.builtin, {}⟩, defaultRootId, none⟩ spelledTwiceDocument).result
      = .ok spelledTwiceMigration :=
  Trace.result_eq_ok_of_toOption (by decide +kernel)

theorem visits_run_spelledTwice :
    (run ⟨⟨Table.builtin, {}⟩, defaultRootId, none⟩ spelledTwiceDocument).result
        = .ok spelledTwiceMigration ∧
      visitedBy (run ⟨⟨Table.builtin, {}⟩, defaultRootId, none⟩ spelledTwiceDocument).events
        = spelledTwiceMigration.resolved ∧
      (∀ place, (spelledTwiceMigration.resolved.map placeOf?).count (some place)
        = {ref | Reachable spelledTwiceDocument.targetRefs spelledTwiceDocument.definitionRefs ref ∧
            placeOf? ref = some place}.ncard) ∧
      ((spelledTwiceMigration.resolved.map placeOf?).Nodup ↔ spelledTwiceDocument.SpelledOnce) :=
  ⟨result_run_spelledTwice, visits_run result_run_spelledTwice⟩

/-- A definition may be migrated twice: both texts for it are listed, and a visit of it is begun
    for each. -/
theorem migrated_twice :
    (run ⟨⟨Table.builtin, {}⟩, defaultRootId, none⟩ spelledTwiceDocument).result
        = .ok spelledTwiceMigration ∧
      (visitedBy (run ⟨⟨Table.builtin, {}⟩, defaultRootId, none⟩ spelledTwiceDocument).events).map
          placeOf?
        = [some ["definitions", "my def"], some ["definitions", "my def"]] ∧
      ¬ (spelledTwiceMigration.resolved.map placeOf?).Nodup := by
  refine ⟨result_run_spelledTwice, ?_, ?_⟩
  · decide +kernel
  · decide +kernel

end Transformer

end Relayout
