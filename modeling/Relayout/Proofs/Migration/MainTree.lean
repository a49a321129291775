/-
  Relayout/Proofs/Migration/MainTree.lean
  =======================================
  **The main tree of a document and its definitions are apart.**

  No pointer that the survey of the root builds leads into definitions, and a pointer that does
  goes on doing so with any further segments.  So a definition is never put back at or above an
  object of the main tree: it is put aside from the object, which stays as it is, or into
  definitions inside the object, and then nothing else changes about it (`SparedBy`).  From one
  definition to all of them, the schema that a walk gives has each object of the main tree with the
  members that the structural migration gives it, outside of definitions inside the object
  (`Dialect.walk_mainTreeApart`).
-/
import Relayout.Proofs.Migration.Confluence
import Relayout.Proofs.Migration.Settled
import Relayout.Proofs.Migration.Surveyed

namespace Relayout

/-! ### One definition -/

/-- What becomes of the value at a place when a definition is put back: it stays as it is, or the
    definition is put further down, where pointers lead into definitions, and all else stays. -/
inductive SparedBy (entry : Pointer × Json) (place : Place) : Json → Json → Prop where
  | aside (v : Json) : SparedBy entry place v v
  | inside {below : Place} {a v w : Json} : entry.1.place = place ++ below →
    throughDefinitions below = true → a.Varies entry.2 below v w → SparedBy entry place v w

theorem SparedBy.agreeOutside {entry : Pointer × Json} {place : Place} {v w : Json}
    (h : SparedBy entry place v w) :
    v.AgreeOutside (fun below => throughDefinitions below = true) w := by
  intro deeper houtside
  cases h with
  | aside => rfl
  | inside _ hlazy hvaries =>
    apply hvaries.shapeAt_eq
    intro hprefix
    exact houtside _ hprefix hlazy

theorem Json.exists_obj_of_agreeOutside {ms : Members} {w : Json}
    (h : (obj ms).AgreeOutside (fun below => throughDefinitions below = true) w) :
    ∃ ns : Members, w = .obj ns ∧ ns.keys = ms.keys := by
  have hroot : (obj ms).shapeAt [] = w.shapeAt [] := by
    apply h
    intro above habove
    rw [List.prefix_nil.1 habove]
    exact Bool.false_ne_true
  have hshape : (obj ms).shape = w.shape := Option.some.inj hroot
  cases w with
  | obj ns => exact ⟨ns, rfl, (Shape.obj.inj hshape).symm⟩
  | null | bool | num | str | arr => cases hshape

section Place

-- below the place, what is in definitions is so seen from there
variable {place : Place}
  (hplace : ∀ below, throughDefinitions (place ++ below) = throughDefinitions below)

include hplace

/-- **Putting one definition back** spares what is at a place outside of definitions. -/
theorem exists_sparedBy_putBack {entry : Pointer × Json} (hentry : entry.1.isLazy = true)
    {schema v : Json} (hv : schema.at? place = some v) :
    ∃ w, (putBack schema entry).at? place = some w ∧ SparedBy entry place v w := by
  obtain ⟨q, x⟩ := entry
  have hq : throughDefinitions q.place = true := by
    rw [← Pointer.isLazy_eq_throughDefinitions]
    exact hentry
  cases hreplace : schema.replace? q x with
  | none => exact ⟨v, by simp [putBack, hreplace, hv], .aside v⟩
  | some schema' =>
    obtain ⟨a, hvaries⟩ := Json.varies_of_replace? hreplace
    have hnot : ¬ q.place <+: place := by
      rintro ⟨rest, hrest⟩
      have hlazy : throughDefinitions place = true := hrest ▸ throughDefinitions_append hq rest
      have hnil := hplace []
      rw [List.append_nil, hlazy] at hnil
      cases hnil
    have hput : putBack schema (q, x) = schema' := by simp [putBack, hreplace]
    rw [hput]
    rcases hvaries.at?_cases hnot with ⟨hnone, -⟩ | ⟨v', w, hv', hw, hcounterparts⟩
    · rw [hv] at hnone
      cases hnone
    · rw [hv] at hv'
      cases hv'
      refine ⟨w, hw, ?_⟩
      cases hcounterparts with
      | aside => exact .aside v
      | above hd hbelow => exact .inside hd.symm (by rw [← hplace, hd, hq]) hbelow

/-! ### All definitions -/

/-- **Putting definitions back** one after the other leaves a value outside of definitions what it
    is outside of its own. -/
theorem exists_agreeOutside_splice {entries : List (Pointer × Json)}
    (hentries : ∀ entry ∈ entries, entry.1.isLazy = true) {schema v : Json}
    (hv : schema.at? place = some v) :
    ∃ w, (splice entries schema).2.at? place = some w ∧
      v.AgreeOutside (fun below => throughDefinitions below = true) w := by
  rw [splice_eq_foldl]
  induction entries generalizing schema v with
  | nil => exact ⟨v, hv, fun _ _ => rfl⟩
  | cons entry rest ih =>
    obtain ⟨hentry, hrest⟩ := List.forall_mem_cons.1 hentries
    obtain ⟨u, hu, hspared⟩ := exists_sparedBy_putBack hplace hentry hv
    obtain ⟨w, hw, hagree⟩ := ih hrest hu
    refine ⟨w, hw, ?_⟩
    intro deeper houtside
    exact (hspared.agreeOutside deeper houtside).trans (hagree deeper houtside)

end Place

/-! ### The main tree -/

namespace Dialect

/-- The main tree of a document and its definitions are apart. -/
structure MainTreeApart (d : Dialect) (document : Json) : Prop where
  /-- What is surveyed at a pointer by keywords alone is a part of the survey of the root, -/
  surveyed : ∀ role p v, document.Surveyed role p v →
    d.survey role p v <:+: d.survey .schema .root document
  /-- and what is so surveyed as a schema is what a walk visits in the root. -/
  visited : ∀ visit, visit ∈ document.visits .schema [] ↔
    ∃ p : Pointer, p.place = visit.place ∧ document.InMainTree p visit.node
  /-- No pointer of it, read as it is written, leads into definitions. -/
  outside : ∀ role p v, document.Surveyed role p v →
    (Pointer.ofText? p.text).map Pointer.isLazy = some false
  /-- A written pointer that leads into definitions does so with any further segments. -/
  further : ∀ text p, Pointer.ofText? text = some p → p.isLazy = true →
    ∀ more, (Pointer.ofText? (text ++ "/" ++ more)).map Pointer.isLazy = some true
  /-- When its turn comes, a definition is put back aside from each object of the main tree or into
      definitions inside the object, whose keys stay. -/
  spared : ∀ s, (d.follow document).result = .ok s → ∀ before entry after,
    byDepth s.arena = before ++ entry :: after → ∀ p node, document.InMainTree p node →
      ∃ ms ns : Members,
        (splice before (d.migrate .schema document)).2.at? p.place = some (.obj ms) ∧
        (splice (before ++ [entry]) (d.migrate .schema document)).2.at? p.place
          = some (.obj ns) ∧
        ns.keys = ms.keys ∧ SparedBy entry p.place (.obj ms) (.obj ns)
  /-- So the result of a walk has each object of the main tree with the keys that its structural
      migration has, and with the same in its members outside of definitions. -/
  kept : ∀ m, (d.walk document).result = .ok m → ∀ p node, document.InMainTree p node →
    ∃ ms ns : Members, (d.migrate .schema document).at? p.place = some (.obj ms) ∧
      m.schema.at? p.place = some (.obj ns) ∧ ns.keys = ms.keys ∧
      (Json.obj ms).AgreeOutside (fun below => throughDefinitions below = true) (.obj ns)

variable {d : Dialect} {document : Json} {s : Progress}

theorem isLazy_of_mem_arena (h : (d.follow document).result = .ok s) {entry : Pointer × Json}
    (hentry : entry ∈ s.arena) : entry.1.isLazy = true := by
  obtain ⟨ref, -, -, hlazy, -⟩ := (keptForAll_of_follow h).2 entry hentry
  exact hlazy

/-- No object of the main tree is lost with a member that the table claims. -/
theorem exists_migrated_of_inMainTree (d : Dialect) (hdocument : document.WellFormed)
    {p : Pointer} {node : Members} (h : document.InMainTree p node) :
    ∃ ms : Members, (d.migrate .schema document).at? p.place = some (.obj ms) := by
  have hvisits := h.visits_below hdocument
  rcases d.at?_treat (t := .inRole .schema) (h.found hdocument) with
    hkept | ⟨-, above, name, owner, ⟨rest, hrest⟩, howner, howned, hclaimed⟩
  · obtain ⟨label, htreat, -⟩ := d.treat_obj_of_visits hvisits node
    rw [htreat] at hkept
    exact ⟨_, hkept⟩
  · -- the value of a claimed member is copied, and nothing in it is visited
    have hrole := Table.ofKeyword_of_recognizes hclaimed
    have hcopied := Treatment.below_copied howner howned hrole rest
    rw [← hrest, List.append_assoc, List.singleton_append, hcopied] at hvisits
    cases hvisits

theorem exists_agreeOutside_of_inMainTree (hdocument : document.WellFormed)
    {entries : List (Pointer × Json)} (hentries : ∀ entry ∈ entries, entry.1.isLazy = true)
    {p : Pointer} {node : Members} (h : document.InMainTree p node) :
    ∃ ms ns : Members, (d.migrate .schema document).at? p.place = some (.obj ms) ∧
      (splice entries (d.migrate .schema document)).2.at? p.place = some (.obj ns) ∧
      ns.keys = ms.keys ∧
      (Json.obj ms).AgreeOutside (fun below => throughDefinitions below = true) (.obj ns) := by
  obtain ⟨ms, hms⟩ := d.exists_migrated_of_inMainTree hdocument h
  obtain ⟨w, hw, hagree⟩ := exists_agreeOutside_splice h.throughDefinitions_append hentries hms
  obtain ⟨ns, rfl, hkeys⟩ := Json.exists_obj_of_agreeOutside hagree
  exact ⟨ms, ns, hms, hw, hkeys, hagree⟩

/-- **The main tree and the definitions are disjoint**, and no definition that is put back changes
    an object of the main tree outside of its definitions. -/
theorem walk_mainTreeApart (d : Dialect) (hdocument : document.WellFormed) :
    d.MainTreeApart document := by
  constructor
  · intro role p v h
    exact h.survey_infix d
  · intro visit
    exact Json.mem_visits_iff_inMainTree hdocument
  · intro role p v h
    exact h.isLazy_ofText?
  · intro text p hp hlazy more
    rw [Pointer.ofText?_append hp, Option.map_some]
    exact congrArg some (throughDefinitions_append hlazy _)
  · intro s hs before entry after hsorted p node h
    have hentries : ∀ e ∈ before ++ entry :: after, e.1.isLazy = true := by
      intro e he
      rw [← hsorted, mem_byDepth] at he
      exact isLazy_of_mem_arena hs he
    obtain ⟨-, ms, -, hms, -⟩ := exists_agreeOutside_of_inMainTree (d := d) hdocument
      (fun e he => hentries e (List.mem_append_left _ he)) h
    obtain ⟨w, hw, hspared⟩ := exists_sparedBy_putBack h.throughDefinitions_append
      (hentries entry (by simp)) hms
    obtain ⟨ns, rfl, hkeys⟩ := Json.exists_obj_of_agreeOutside hspared.agreeOutside
    refine ⟨ms, ns, hms, ?_, hkeys, hspared⟩
    rw [splice_eq_foldl] at hw ⊢
    rw [List.foldl_append]
    exact hw
  · intro m hm p node h
    obtain ⟨e, hwalk⟩ | ⟨s, hs, hwalk⟩ := walk_cases d document
    · rw [hwalk] at hm
      cases hm
    · rw [hwalk] at hm
      cases hm
      apply exists_agreeOutside_of_inMainTree hdocument _ h
      intro entry hentry
      exact isLazy_of_mem_arena hs (mem_byDepth.1 hentry)

/-- A property that is named like a keyword, with names to escape in it and definitions of its
    own. -/
def crowdedProperty : Members :=
  [("properties", .obj [
      ("a/b~", .obj [("$ref", .str "#/properties/definitions/$defs/properties")]),
      ("", .obj [("$ref", .str "#/definitions/x~0y")])]),
    ("$defs", .obj [("properties", .obj [("x-display", .str "chip")])])]

def crowdedDocument : Json :=
  .obj [("properties", .obj [("definitions", .obj crowdedProperty)]),
    ("definitions", .obj [("x~y", .obj [("x-display", .str "card")])])]

/-- How far its references are followed: one definition is inside the property. -/
def crowdedProgress : Progress where
  unseen := []
  reached := ["#/properties/definitions/$defs/properties", "#/definitions/x~0y"]
  arena := [(⟨["properties", "definitions", "$defs", "properties"]⟩,
      .obj [("layout", .str "chip")]),
    (⟨["definitions", "x~0y"]⟩, .obj [("layout", .str "card")])]

theorem inMainTree_crowdedProperty :
    crowdedDocument.InMainTree ⟨["properties", "definitions"]⟩ crowdedProperty := by
  have hpointer : (Pointer.root.push "properties").member "definitions"
      = ⟨["properties", "definitions"]⟩ := by decide +kernel
  have hmap : crowdedDocument.Surveyed (Role.ofKeyword "properties")
      (Pointer.root.push "properties") (.obj [("definitions", .obj crowdedProperty)]) :=
    .keyword .root rfl (by decide) rfl
  rw [← hpointer]
  exact ⟨.schema, rfl, .entry hmap List.mem_cons_self⟩

theorem walk_mainTreeApart_crowdedDocument :
    crowdedDocument.WellFormed ∧
      (follow ⟨Table.builtin, {}⟩ crowdedDocument).result = .ok crowdedProgress ∧
      crowdedDocument.InMainTree ⟨["properties", "definitions"]⟩ crowdedProperty ∧
      MainTreeApart ⟨Table.builtin, {}⟩ crowdedDocument := by
  have hdocument : crowdedDocument.WellFormed := by
    simp [crowdedDocument, crowdedProperty, Json.WellFormed, Json.MembersWellFormed, Members.keys]
  have hfollow : (follow ⟨Table.builtin, {}⟩ crowdedDocument).result = .ok crowdedProgress :=
    Trace.result_eq_ok_of_toOption (by decide +kernel)
  exact ⟨hdocument, hfollow, inMainTree_crowdedProperty, walk_mainTreeApart _ hdocument⟩

end Dialect

end Relayout
