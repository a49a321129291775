/-
  Relayout/Proofs/Migration/Success.lean
  ======================================
  **When a walk succeeds.**

  A walk visits the objects of the root and those of every definition that can be reached.
  It succeeds exactly if each of them is `Dialect.Acceptable`: its extensions can be mapped,
  and its reference is a text that leaves the document or resolves in it
  (`Dialect.walk_succeeds_iff`).  So a defect in an object that is not visited does no harm,
  be it in a definition that is not reached or in the value of a keyword that is copied
  (`Json.Spared`).

  It fails for nothing but such an object (`Dialect.exists_rejected_of_walk`).  That it fails for
  each of them is not plain, since a walk meets each reference text once and follows it at one
  place only.  What carries the proof over the other places is that a text that was met
  resolves (`Followed.sound`).
-/
import Relayout.Proofs.Extension.Satisfied
import Relayout.Proofs.Migration.Children
import Relayout.Proofs.Migration.Failure

namespace Relayout

open DepthFirst (Reachable Search)

namespace Json

/-- The places at which visits begin: the root, and the definitions that can be reached. -/
def Start (document : Json) (start : Place) : Prop :=
  start = [] ∨ ∃ ref p, Reachable document.targetRefs document.definitionRefs ref ∧
    Pointer.ofRef? ref = some p ∧ p.place = start

/-- A place below a value that a visit of the value does not come to. -/
inductive Spared (v : Json) : Place → Prop where
  /-- It lies in definitions. -/
  | definitions {below : Place} : throughDefinitions below = true → Spared v below
  /-- It lies in the value of a keyword that is copied. -/
  | keyword {above rest : Place} {node : Members} {keyword : String} :
    v.at? above = some (.obj node) →
    ((Treatment.inRole .schema).below v above).visits = true →
    Role.ofKeyword keyword = .verbatim → Spared v (above ++ keyword :: rest)

end Json

/-- A step that does not fail. -/
def Step.Sound (document : Json) : Step → Prop
  | .note _ => True
  | .fail _ => False
  | .follow ref _ => document.Resolves ref

namespace Dialect

variable {d : Dialect} {document : Json}

/-- The visit of the target of a reference does not fail. -/
def SoundTarget (d : Dialect) (document : Json) (ref : String) : Prop :=
  ∀ p target, Pointer.ofRef? ref = some p → document.at? p.place = some target →
    ∀ step ∈ d.survey .schema p target, step.Sound document

/-! ### Steps that do not fail -/

theorem exists_mapped_congr (path path' : String) (node : Members) :
    (∃ mapped, (d.mapping path node).result = .ok mapped) ↔
      ∃ mapped, (d.mapping path' node).result = .ok mapped := by
  unfold mapping
  rw [Table.exists_mapped_iff, Table.exists_mapped_iff]

theorem sound_ruleSteps_iff (p : Pointer) (node : Members) :
    (∀ step ∈ d.ruleSteps p node, step.Sound document) ↔
      ∃ mapped, (d.mapping p.text node).result = .ok mapped := by
  have hnotes : ∀ step ∈ (d.mapping p.text node).applied.map
      (fun rule => Step.note (.applyingRule p.text rule)), step.Sound document := by
    simp [Step.Sound]
  unfold ruleSteps
  rw [List.forall_mem_append, and_iff_right hnotes]
  cases (d.mapping p.text node).result <;> simp [Step.Sound]

theorem sound_refSteps_iff (p : Pointer) (node : Members) :
    (∀ step ∈ refSteps p node, step.Sound document) ↔
      ∀ v, node.get? "$ref" = some v → ∃ ref, v = .str ref ∧ document.Resolves ref := by
  unfold refSteps
  cases hget : node.get? "$ref" with
  | none => simp
  | some v => cases v <;> simp [Step.Sound]

theorem sound_nodeSteps_iff (p : Pointer) (node : Members) :
    (∀ step ∈ d.ruleSteps p node ++ refSteps p node, step.Sound document) ↔
      d.Acceptable document node := by
  rw [List.forall_mem_append, sound_ruleSteps_iff, sound_refSteps_iff]
  constructor
  · intro h
    have hmapped : ∀ path, ∃ mapped, (d.mapping path node).result = .ok mapped := by
      intro path
      exact (exists_mapped_congr p.text path node).1 h.1
    exact ⟨hmapped, h.2⟩
  · intro h
    exact ⟨h.mapped p.text, h.ref⟩

/-- A visit does not fail exactly if each of the visited objects is acceptable. -/
theorem sound_survey_iff (p : Pointer) (v : Json) (place : Place) :
    (∀ step ∈ d.survey .schema p v, step.Sound document) ↔
      ∀ visit ∈ v.visits .schema place, d.Acceptable document visit.node := by
  apply d.forall_survey_iff
  · intro p i xs step hstep
    obtain ⟨event, rfl, -⟩ := exists_note_of_mem_allLabelSteps hstep
    trivial
  · exact sound_nodeSteps_iff

/-! ### A walk that succeeds -/

theorem resolves_of_locate? {ref fragment : String} {found : Pointer × Json}
    (hfragment : internalFragment? ref = some fragment)
    (hlocate : locate? document fragment = some found) : document.Resolves ref := by
  intro other hother
  rw [hfragment] at hother
  cases hother
  simp [hlocate]

theorem resolves_of_external {ref : String} (h : internalFragment? ref = none) :
    document.Resolves ref := by
  intro fragment hfragment
  rw [h] at hfragment
  cases hfragment

/-- Of steps that are all taken none fails, nor does one in the targets that they reach: a text that
    was met before resolves. -/
theorem Followed.sound {steps : List Step} {s t : Progress}
    (h : Followed d document steps s t)
    (htexts : steps.filterMap Step.ref? ⊆ document.refTexts)
    (hmet : ∀ ref ∈ document.refTexts, ref ∉ s.unseen → document.Resolves ref) :
    (∀ step ∈ steps, step.Sound document) ∧
      (∀ ref ∈ document.refTexts, ref ∉ t.unseen → document.Resolves ref) ∧
      ∀ ref ∈ t.reached, ref ∈ s.reached ∨ d.SoundTarget document ref := by
  -- meeting a text that resolves keeps what is known of those met before
  have hmeet {s : Progress} {ref : String} (hresolves : document.Resolves ref)
      (hmet : ∀ ref ∈ document.refTexts, ref ∉ s.unseen → document.Resolves ref) :
      ∀ other ∈ document.refTexts, other ∉ (s.meet ref).unseen → document.Resolves other := by
    intro other hother hnew
    by_cases heq : other = ref
    · exact heq ▸ hresolves
    · apply hmet other hother
      simpa [Progress.meet, heq] using hnew
  induction h with
  | done s =>
    have hnone : ∀ step ∈ ([] : List Step), step.Sound document := by simp
    exact ⟨hnone, hmet, fun ref href => Or.inl href⟩
  | note _ ih =>
    obtain ⟨hsteps, hrest⟩ := ih htexts hmet
    exact ⟨List.forall_mem_cons.2 ⟨trivial, hsteps⟩, hrest⟩
  | external hfragment _ ih =>
    rw [filterMap_ref?_follow] at htexts
    obtain ⟨hsteps, hrest⟩ := ih (List.cons_subset.1 htexts).2 hmet
    exact ⟨List.forall_mem_cons.2 ⟨resolves_of_external hfragment, hsteps⟩, hrest⟩
  | @again ref _ _ _ _ _ _ hseen _ ih =>
    rw [filterMap_ref?_follow] at htexts
    obtain ⟨href, htodo⟩ := List.cons_subset.1 htexts
    obtain ⟨hsteps, hrest⟩ := ih htodo hmet
    exact ⟨List.forall_mem_cons.2 ⟨hmet ref href hseen, hsteps⟩, hrest⟩
  | inPlace hfragment _ hlocate _ _ ih =>
    rw [filterMap_ref?_follow] at htexts
    have hresolves := resolves_of_locate? hfragment hlocate
    obtain ⟨hsteps, hrest⟩ := ih (List.cons_subset.1 htexts).2 (hmeet hresolves hmet)
    exact ⟨List.forall_mem_cons.2 ⟨hresolves, hsteps⟩, hrest⟩
  | @visit ref _ _ p target _ s u _ hfragment _ hlocate _ _ _ ihTarget ihTodo =>
    rw [filterMap_ref?_follow] at htexts
    obtain ⟨-, htodo⟩ := List.cons_subset.1 htexts
    have hresolves := resolves_of_locate? hfragment hlocate
    obtain ⟨hpointer, hat⟩ := locate?_eq_some hfragment hlocate
    rw [filterMap_ref?_survey d p [] .schema target] at ihTarget
    have hinner : (target.visits .schema []).filterMap Visit.ref? ⊆ document.refTexts :=
      List.Subset.trans (target.visits_ref?_subset_refTexts .schema [])
        (Json.refTexts_subset_of_at? hat)
    obtain ⟨hsurvey, hmetInner, hreachedInner⟩ := ihTarget hinner (hmeet hresolves hmet)
    obtain ⟨hsteps, hmetLater, hreachedLater⟩ := ihTodo htodo hmetInner
    refine ⟨List.forall_mem_cons.2 ⟨hresolves, hsteps⟩, hmetLater, ?_⟩
    intro other hother
    rcases hreachedLater other hother with hother | hsound
    · rcases hreachedInner other hother with hother | hsound
      · rcases List.mem_append.1 hother with hbefore | hself
        · exact Or.inl hbefore
        · obtain rfl := List.mem_singleton.1 hself
          right
          intro q found hq hfound
          obtain rfl : q = p := by simpa [hpointer, eq_comm] using hq
          obtain rfl : found = target := by simpa [hat, eq_comm] using hfound
          exact hsurvey
      · exact Or.inr hsound
    · exact Or.inr hsound

/-- What a walk that succeeds has visited is acceptable. -/
theorem acceptable_of_walk {m : Migration} (h : (d.walk document).result = .ok m) {visit : Visit}
    (hvisit : document.Visited visit) : d.Acceptable document visit.node := by
  have hsearch := search_of_walk h
  obtain ⟨t, hfollowed, hresolved, -⟩ := exists_followed_of_walk h
  have htexts : (d.survey .schema .root document).filterMap Step.ref? ⊆ document.refTexts := by
    rw [filterMap_ref?_survey d .root [] .schema document]
    exact document.visits_ref?_subset_refTexts .schema []
  have hmet : ∀ ref ∈ document.refTexts, ref ∉ (Progress.start document).unseen →
      document.Resolves ref := by
    intro ref href hnew
    exact absurd (List.mem_eraseDups.2 href) hnew
  obtain ⟨hroot, -, htargets⟩ := hfollowed.sound htexts hmet
  rcases hvisit with hmem | ⟨ref, p, target, hreach, hp, hat, hmem⟩
  · exact (sound_survey_iff .root document []).1 hroot visit hmem
  · have href : ref ∈ t.reached := by
      rw [← hresolved]
      exact hsearch.mem_iff_reachable.2 hreach
    have hsound : d.SoundTarget document ref := by
      rcases htargets ref href with hnone | hsound
      · cases hnone
      · exact hsound
    exact (sound_survey_iff p target p.place).1 (hsound p target hp hat) visit hmem

end Dialect

namespace Json

variable {document : Json}

/-! ### Objects that are not visited -/

theorem Spared.below_eq_verbatim {v : Json} {below : Place} (h : v.Spared below) :
    (Treatment.inRole .schema).below v below = .inRole .verbatim := by
  cases h with
  | definitions h => exact Treatment.below_eq_verbatim v h
  | keyword hat hvisits hrole => exact Treatment.below_copied hat hvisits hrole _

/-- A visited object lies at a place that some visit treats as a schema. -/
theorem Visited.exists_start (hdocument : document.WellFormed) {visit : Visit}
    (h : document.Visited visit) :
    document.at? visit.place = some (.obj visit.node) ∧
      ∃ start below target, document.Start start ∧ visit.place = start ++ below ∧
        document.at? start = some target ∧
        ((Treatment.inRole .schema).below target below).visits = true := by
  rcases h with hmem | ⟨ref, p, target, hreach, hp, hat, hmem⟩
  · obtain ⟨below, hplace, hbelow, hvisits⟩ :=
      (mem_visits_schema_iff hdocument []).1 hmem
    rw [List.nil_append] at hplace
    rw [hplace]
    exact ⟨hbelow, [], below, document, Or.inl rfl, rfl, rfl, hvisits⟩
  · obtain ⟨below, hplace, hbelow, hvisits⟩ :=
      (mem_visits_schema_iff (hdocument.at hat) p.place).1 hmem
    rw [hplace]
    refine ⟨?_, p.place, below, target, Or.inr ⟨ref, p, hreach, hp, rfl⟩, rfl, hat, hvisits⟩
    rw [at?_append_of_eq_some hat, hbelow]

/-- An object that every visit at or above it spares is not visited. -/
theorem not_visited_of_spared (hdocument : document.WellFormed) {visit : Visit}
    (h : ∀ start below target, document.Start start → visit.place = start ++ below →
      document.at? start = some target → target.Spared below) : ¬ document.Visited visit := by
  intro hvisited
  obtain ⟨-, start, below, target, hstart, hplace, htarget, hvisits⟩ :=
    hvisited.exists_start hdocument
  have hverbatim := (h start below target hstart hplace htarget).below_eq_verbatim
  rw [hverbatim] at hvisits
  cases hvisits

end Json

namespace Dialect

/-- **A walk succeeds exactly if all objects that are visited in the root and in the definitions
    that can be reached are acceptable.**  Objects in definitions that are not reached, and in the
    values of keywords that are copied, never make it fail. -/
theorem walk_succeeds_iff (d : Dialect) (document : Json) :
    ((∃ m, (d.walk document).result = .ok m) ↔
      ∀ visit, document.Visited visit → d.Acceptable document visit.node) ∧
    (document.WellFormed →
      (∀ place node, document.at? place = some (.obj node) → ¬ d.Acceptable document node →
        ∀ start below target, document.Start start → place = start ++ below →
          document.at? start = some target → target.Spared below) →
      ∃ m, (d.walk document).result = .ok m) := by
  constructor
  · constructor
    · rintro ⟨m, h⟩ visit hvisit
      exact acceptable_of_walk h hvisit
    · intro h
      exact exists_walk_of_acceptable h
  · intro hdocument hspared
    apply exists_walk_of_acceptable
    intro visit hvisit
    obtain ⟨hat, -⟩ := hvisit.exists_start hdocument
    by_contra hdefect
    exact Json.not_visited_of_spared hdocument (hspared _ _ hat hdefect) hvisit

/-- A document with an extension of the wrong kind in a default, and a reference that leads nowhere
    in a definition that is not reached. -/
def sparedDocument : Json :=
  .obj [("x-display", .str "card"), ("default", .obj [("x-display", .bool true)]),
    ("definitions", .obj [("a", .obj [("$ref", .str "#/nowhere")])])]

theorem start_sparedDocument {start : Place} (h : sparedDocument.Start start) : start = [] := by
  rcases h with rfl | ⟨ref, p, hreach, -⟩
  · rfl
  · have hnone : sparedDocument.definitionRefs = [] := by decide +kernel
    rw [hnone] at hreach
    have hempty : ∀ found, ¬ Reachable sparedDocument.targetRefs [] found := by
      intro found hfound
      induction hfound with
      | root hmem => cases hmem
      | step _ _ ih => exact ih
    exact absurd hreach (hempty ref)

theorem spared_sparedDocument {place : Place} {node : Members}
    (hat : sparedDocument.at? place = some (.obj node))
    (hdefect : ¬ Acceptable ⟨Table.builtin, {}⟩ sparedDocument node) :
    sparedDocument.Spared place := by
  cases place with
  | nil =>
    cases hat
    refine absurd ⟨?_, ?_⟩ hdefect
    · intro path
      exact (exists_mapped_congr "" path _).1 ⟨_, rfl⟩
    · intro v hv
      cases hv
  | cons keyword rest =>
    by_cases hdefinitions : keyword = "definitions"
    · subst hdefinitions
      exact .definitions (by simp [throughDefinitions_cons])
    · by_cases hdefault : keyword = "default"
      · subst hdefault
        have hroot : sparedDocument.at? [] = some sparedDocument := rfl
        have hspared : sparedDocument.Spared ([] ++ "default" :: rest) := .keyword hroot rfl rfl
        exact hspared
      · -- the third member is a text
        obtain ⟨w, hw, hrest⟩ := Option.bind_eq_some_iff.1 hat
        obtain ⟨-, rfl⟩ : "x-display" = keyword ∧ Json.str "card" = w := by
          simpa [sparedDocument, Json.child?, Members.get?, Ne.symm hdefinitions,
            Ne.symm hdefault] using hw
        cases rest <;> cases hrest

theorem walk_succeeds_sparedDocument :
    sparedDocument.WellFormed ∧
      sparedDocument.at? ["default"] = some (.obj [("x-display", .bool true)]) ∧
      ¬ Acceptable ⟨Table.builtin, {}⟩ sparedDocument [("x-display", .bool true)] ∧
      ∃ m, (walk ⟨Table.builtin, {}⟩ sparedDocument).result = .ok m := by
  have hdocument : sparedDocument.WellFormed := by
    simp [sparedDocument, Json.WellFormed, Json.MembersWellFormed, Members.keys]
  refine ⟨hdocument, rfl, ?_, ?_⟩
  · intro h
    obtain ⟨mapped, hmapped⟩ := h.mapped ""
    cases hmapped
  · apply (walk_succeeds_iff ⟨Table.builtin, {}⟩ sparedDocument).2 hdocument
    intro place node hat hdefect start below target hstart hplace htarget
    obtain rfl := start_sparedDocument hstart
    cases htarget
    rw [List.nil_append] at hplace
    exact hplace ▸ spared_sparedDocument hat hdefect

end Dialect

end Relayout
