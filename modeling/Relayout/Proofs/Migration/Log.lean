/-
  Relayout/Proofs/Migration/Log.lean
  ==================================
  **The log of a run agrees with its result.**

  Besides the visits of definitions, following references logs what the objects that it comes to
  bring: applications of rules, references that leave the document, and labels
  (`Dialect.Told`).  Putting the definitions back logs those that have no place in the end, which
  a claimed member of a visited object took with it (`Dialect.exists_claimed_of_slotless`).  A run
  that succeeds logs its end once and last; one that fails does not (`Transformer.log_agrees`).
-/
import Relayout.Proofs.Migration.Applications
import Relayout.Proofs.Migration.Revisit
import Relayout.Proofs.Migration.Spelling

namespace Relayout

namespace Dialect

variable {d : Dialect} {document : Json}

/-! ### What is logged while references are followed -/

/-- What following references logs, and about which objects. -/
inductive Told (d : Dialect) (document : Json) : Event → Prop where
  | definition (ref : String) : Told d document (.migratingDefinition ref)
  | application (path : String) (rule : Rule) : Told d document (.applyingRule path rule)
  | external (ref place : String) : Told d document (.externalRef ref place)
  | ambiguous (path : String) : Told d document (.ambiguousLabel path)
  /-- An element of the `allOf` of a visited object is given the title of its discriminant. -/
  | label {p : Pointer} {node element : Members} {xs : List Json} {i : Nat} {label : String} :
    d.ComesTo document ⟨p.place, node⟩ → document.LeadsTo p (.obj node) →
      node.get? "allOf" = some (.arr xs) → xs[i]? = some (.obj element) →
      discriminantTitles element = [label] →
      Told d document (.attachingLabel ((p.push "allOf").element i).text label)

theorem exists_element_of_mem_allLabelSteps {p : Pointer} {i : Nat} {xs : List Json} {step : Step}
    (h : step ∈ allLabelSteps p i xs) :
    ∃ j x, xs[j]? = some x ∧ step ∈ labelSteps (p.element (i + j)) x := by
  induction xs generalizing i with
  | nil => cases h
  | cons x xs ih =>
    rcases List.mem_append.1 h with hhere | hrest
    · exact ⟨0, x, rfl, hhere⟩
    · obtain ⟨j, y, hy, hstep⟩ := ih hrest
      have hindex : i + 1 + j = i + (j + 1) := by omega
      rw [hindex] at hstep
      exact ⟨j + 1, y, hy, hstep⟩

theorem exists_attach_of_mem_labelSteps {p : Pointer} {x : Json} {path label : String}
    (h : .note (.attachingLabel path label) ∈ labelSteps p x) :
    ∃ element, x = .obj element ∧ path = p.text ∧ labelling element = .attach label := by
  cases x with
  | obj element =>
    rw [labelSteps] at h
    split at h
    · cases h
    · rename_i attached hlabelling
      cases List.mem_singleton.1 h
      exact ⟨element, rfl, rfl, hlabelling⟩
    · cases List.mem_singleton.1 h
  | null | bool | num | str | arr => cases h

/-- An element that is an object after its migration was one before. -/
theorem exists_obj_of_migrate {x : Json} {element : Members}
    (h : d.migrate .schema x = .obj element) :
    ∃ before, x = .obj before ∧ element = d.migrateMembers before ++ d.layoutMember before := by
  cases x with
  | obj before =>
    rw [migrate] at h
    cases h
    exact ⟨before, rfl, rfl⟩
  | null | bool | num | str | arr =>
    simp only [migrate] at h
    cases h

/-- A label that is attached is the one title that the element has in the input. -/
theorem exists_element_of_attach (hdocument : document.WellFormed) {p : Pointer} {node : Members}
    (hobject : document.LeadsTo p (.obj node)) {xs : List Json}
    (hallOf : node.get? "allOf" = some (.arr xs)) {path label : String}
    (h : .note (.attachingLabel path label)
      ∈ allLabelSteps (p.push "allOf") 0 (d.migrateElements xs)) :
    ∃ i element, xs[i]? = some (.obj element) ∧ path = ((p.push "allOf").element i).text ∧
      discriminantTitles element = [label] := by
  obtain ⟨i, y, hy, hstep⟩ := exists_element_of_mem_allLabelSteps h
  obtain ⟨element, rfl, rfl, hlabelling⟩ := exists_attach_of_mem_labelSteps hstep
  rw [migrateElements_eq_map, List.getElem?_map, Option.map_eq_some_iff] at hy
  obtain ⟨x, hx, hmigrate⟩ := hy
  obtain ⟨before, rfl, rfl⟩ := exists_obj_of_migrate hmigrate
  have hbefore : (Json.obj before).WellFormed := by
    have hnode := Json.wellFormed_obj_iff.1 (hdocument.at hobject.found)
    have helements := Json.wellFormed_arr_iff.1
      (hnode.2 _ (Members.mem_of_get?_eq_some hallOf))
    exact helements _ (List.mem_of_getElem? hx)
  refine ⟨i, before, hx, by rw [Nat.zero_add], ?_⟩
  have htitle := (label?_labelling_eq_some_iff.1 (congrArg Labelling.label? hlabelling)).2
  rwa [d.discriminantTitles_migrate hbefore] at htitle

theorem told_of_broughtBy (hdocument : document.WellFormed) {p : Pointer} {node : Members}
    {step : Step} {event : Event} (hstep : d.ComesBy document p node step)
    (hlogs : step.Logs event) : d.Told document event := by
  obtain ⟨hcomes, hobject, hbrought⟩ := hstep
  cases hlogs with
  | external ref source => exact .external _ _
  | note event =>
    cases hbrought with
    | own hown =>
      rcases List.mem_append.1 hown with hrule | href
      · unfold ruleSteps at hrule
        rcases List.mem_append.1 hrule with hnote | hfail
        · obtain ⟨rule, -, heq⟩ := List.mem_map.1 hnote
          cases heq
          exact .application _ _
        · split at hfail
          · cases hfail
          · cases List.mem_singleton.1 hfail
      · unfold refSteps at href
        split at href
        · cases href
        · cases List.mem_singleton.1 href
        · cases List.mem_singleton.1 href
    | label hallOf hlabel =>
      obtain ⟨told, heq, ⟨path, label, rfl⟩ | ⟨path, rfl⟩⟩ :=
        exists_note_of_mem_allLabelSteps hlabel
      · cases heq
        obtain ⟨i, element, hx, rfl, htitle⟩ :=
          exists_element_of_attach hdocument hobject hallOf hlabel
        exact .label hcomes hobject hallOf hx htitle
      · cases heq
        exact .ambiguous path

theorem told_follow (d : Dialect) (hdocument : document.WellFormed) :
    ∀ event ∈ (d.follow document).events, d.Told document event := by
  intro event hevent
  rcases (d.accounts_follow hdocument).events event hevent with
    ⟨ref, rfl⟩ | ⟨p, node, step, hstep, hlogs⟩
  · exact .definition ref
  · exact told_of_broughtBy hdocument hstep hlogs

/-! ### What a walk logs -/

/-- A walk logs what following references does, and, if that succeeds, what putting the definitions
    back does. -/
theorem walk_cases (d : Dialect) (document : Json) :
    (∃ e, d.walk document = ⟨(d.follow document).events, .error e⟩) ∨
      ∃ s, (d.follow document).result = .ok s ∧
        d.walk document = ⟨(d.follow document).events ++
            (splice (byDepth s.arena) (d.migrate .schema document)).1,
          .ok ⟨(splice (byDepth s.arena) (d.migrate .schema document)).2, s.reached⟩⟩ := by
  rw [walk_eq, Trace.bind]
  cases hresult : (d.follow document).result with
  | ok s => exact Or.inr ⟨s, rfl, rfl⟩
  | error e => exact Or.inl ⟨e, rfl⟩

theorem keptForAll_of_follow {s : Progress} (h : (d.follow document).result = .ok s) :
    d.KeptForAll document s.reached s.arena := by
  obtain ⟨refs, entries, hreached, harena, hkept⟩ :=
    (followed_of_resolve (Nat.le_refl _) h).exists_kept
  have hrefs : s.reached = refs := hreached
  have hentries : s.arena = entries := harena
  rwa [hrefs, hentries]

theorem exists_missing_of_slotless {s : Progress} {schema : Json} {event : Event}
    (h : event ∈ (splice (byDepth s.arena) schema).1) :
    ∃ entry ∈ s.arena, event = .definitionWithoutSlot entry.1.text ∧
      (splice (byDepth s.arena) schema).2.at? entry.1.place = none := by
  obtain ⟨entry, hentry, hevent, hmissing⟩ :=
    exists_missing_of_splice (pairwise_byDepth s.arena) h
  exact ⟨entry, mem_byDepth.1 hentry, hevent, hmissing⟩

/-- A pointer to a definition that has been reached goes through a claimed key of a visited
    object. -/
structure Slotless (d : Dialect) (document : Json) (resolved : List String) (pointer : String) :
    Prop where
  reached : ∃ ref ∈ resolved, ∃ fragment, internalFragment? ref = some fragment ∧
    Text.percentDecode fragment = pointer
  claimed : ∃ p above name node, Pointer.ofText? pointer = some p ∧ above ++ [name] <+: p.place ∧
    d.ComesTo document ⟨above, node⟩ ∧ node.has name = true ∧ d.table.recognizes name = true

theorem has_of_prefix {v : Json} {above place : Place} {name : String} {node : Members}
    (hbelow : above ++ [name] <+: place) (hplace : document.at? place = some v)
    (hnode : document.at? above = some (.obj node)) : node.has name = true := by
  obtain ⟨below, rfl⟩ := hbelow
  have hat : document.at? (above ++ [name]) ≠ none :=
    Json.at?_ne_none_of_append (by rw [hplace]; exact Option.some_ne_none v)
  rw [Json.at?_append_of_eq_some hnode, Json.at?_singleton] at hat
  obtain ⟨w, hw⟩ := Option.ne_none_iff_exists'.1 hat
  exact Members.has_of_get?_eq_some hw

/-- The place of a definition vanishes only through a claimed key. -/
theorem exists_claimed_of_slotless (hdocument : document.WellFormed) {m : Migration}
    (h : (d.walk document).result = .ok m) {ref : String} (href : ref ∈ m.resolved)
    {entry : Pointer × Json} (hkept : d.KeptFor document ref entry)
    (hmissing : m.schema.at? entry.1.place = none) :
    d.Slotless document m.resolved entry.1.text := by
  obtain ⟨hpointer, -, target, hat, -⟩ := hkept
  obtain ⟨fragment, hfragment, hread⟩ := Option.bind_eq_some_iff.1 hpointer
  obtain ⟨above, name, node, hbelow, hvisited, hclaimed⟩ := exists_claimed_of_lost h hat hmissing
  have hcomes : d.ComesTo document ⟨above, node⟩ := by
    rw [comesTo_iff_of_walk h, ← Migration.visited_iff (search_of_walk h) hdocument]
    exact hvisited
  constructor
  · exact ⟨ref, href, fragment, hfragment, (Pointer.text_of_ofText? hread).symm⟩
  · refine ⟨entry.1, above, name, node, ?_, hbelow, hcomes,
      has_of_prefix hbelow hat hvisited.1, hclaimed⟩
    exact Pointer.ofText?_text (Pointer.slashFree_of_ofText? hread)

end Dialect

namespace Transformer

variable {t : Transformer} {document : Json}

/-- What a run logs agrees with what it gives and with the input. -/
structure LogAgrees (t : Transformer) (document : Json) : Prop where
  /-- The end of a run that succeeds is logged once and last. -/
  succeeded : ∀ m, (t.run document).result = .ok m → ∃ before,
    (t.run document).events = before ++ [.migrated m.resolved.length] ∧ ∀ n, .migrated n ∉ before
  failed : ∀ e, (t.run document).result = .error e → ∀ n, .migrated n ∉ (t.run document).events
  /-- The definitions that are logged are those that are listed, in this order. -/
  definitions : ∀ m, (t.run document).result = .ok m →
    visitedBy (t.run document).events = m.resolved
  /-- Rules are applied object by object, those that claim a key of it in the order of the table. -/
  applied : ∃ parts : List Applied,
    applications (t.run document).events = parts.flatMap Applied.pairs ∧
      ∀ part ∈ parts, part.Orderly t.dialect document
  /-- Labels are given to elements of the `allOf` of visited objects, each the one title of the
      discriminants in its choice. -/
  labelled : ∀ path label, .attachingLabel path label ∈ (t.run document).events →
    ∃ (p : Pointer) (node : Members) (xs : List Json) (i : Nat) (element : Members),
      t.dialect.ComesTo document ⟨p.place, node⟩ ∧ document.atText? p.text = some (.obj node) ∧
      node.get? "allOf" = some (.arr xs) ∧ xs[i]? = some (.obj element) ∧
      path = ((p.push "allOf").element i).text ∧ document.atText? path = some (.obj element) ∧
      discriminantTitles element = [label]
  /-- Only a reached definition below a claimed key of a visited object has no place left. -/
  slotless : ∀ pointer, .definitionWithoutSlot pointer ∈ (t.run document).events →
    ∃ m, (t.run document).result = .ok m ∧ t.dialect.Slotless document m.resolved pointer

/-- A run is rejected before anything is done, or it logs what its walk does. -/
theorem run_cases (t : Transformer) (document : Json) :
    (∃ e, t.run document = ⟨[.started t.rootId], .error e⟩) ∨
      (∃ e, (t.dialect.walk document).result = .error e ∧
        t.run document = ⟨.started t.rootId :: (t.dialect.walk document).events, .error e⟩) ∨
      ∃ m, (t.dialect.walk document).result = .ok m ∧
        t.run document = ⟨.started t.rootId :: (t.dialect.walk document).events ++
          [.migrated m.resolved.length], .ok { m with schema := m.schema.stamped t.rootId }⟩ := by
  rw [run]
  cases t.precheck document with
  | error e => exact Or.inl ⟨e, rfl⟩
  | ok _ =>
    refine Or.inr ?_
    cases hwalk : (t.dialect.walk document).result with
    | error e => exact Or.inl ⟨e, rfl, by simp [Trace.bind, hwalk, Trace.after]⟩
    | ok m => exact Or.inr ⟨m, rfl, by simp [Trace.bind, hwalk, Trace.after]⟩

/-! ### The events of a run -/

theorem mem_walk_of_mem_run {event : Event} (h : event ∈ (t.run document).events)
    (hstarted : event ≠ .started t.rootId) (hmigrated : ∀ n, event ≠ .migrated n) :
    event ∈ (t.dialect.walk document).events := by
  rcases t.run_cases document with ⟨e, hrun⟩ | ⟨e, -, hrun⟩ | ⟨m, -, hrun⟩
  · rw [hrun] at h
    exact absurd (List.mem_singleton.1 h) hstarted
  · rw [hrun] at h
    exact (List.mem_cons.1 h).resolve_left hstarted
  · rw [hrun] at h
    rcases List.mem_append.1 h with hbefore | hlast
    · exact (List.mem_cons.1 hbefore).resolve_left hstarted
    · exact absurd (List.mem_singleton.1 hlast) (hmigrated _)

/-- What a walk logs is told of objects, or is a definition without a place. -/
theorem told_or_slotless_of_mem_walk (hdocument : document.WellFormed) {event : Event}
    (h : event ∈ (t.dialect.walk document).events) :
    t.dialect.Told document event ∨ ∃ m pointer, (t.dialect.walk document).result = .ok m ∧
      event = .definitionWithoutSlot pointer ∧ t.dialect.Slotless document m.resolved pointer := by
  have htold := t.dialect.told_follow hdocument
  rcases t.dialect.walk_cases document with ⟨e, hwalk⟩ | ⟨s, hs, hwalk⟩
  · rw [hwalk] at h
    exact Or.inl (htold event h)
  · have hresult := congrArg Trace.result hwalk
    rw [hwalk] at h
    rcases List.mem_append.1 h with hfollow | hsplice
    · exact Or.inl (htold event hfollow)
    · obtain ⟨entry, hentry, rfl, hmissing⟩ := Dialect.exists_missing_of_slotless hsplice
      obtain ⟨ref, href, hkept⟩ := (Dialect.keptForAll_of_follow hs).2 entry hentry
      exact Or.inr ⟨_, _, hresult, rfl,
        Dialect.exists_claimed_of_slotless hdocument hresult href hkept hmissing⟩

theorem migrated_not_mem_walk (hdocument : document.WellFormed) (n : Nat) :
    .migrated n ∉ (t.dialect.walk document).events := by
  intro h
  rcases told_or_slotless_of_mem_walk hdocument h with htold | ⟨m, pointer, -, heq, -⟩
  · cases htold
  · cases heq

theorem applications_walk (t : Transformer) (document : Json) :
    applications (t.dialect.walk document).events
      = applications (t.dialect.follow document).events := by
  rcases t.dialect.walk_cases document with ⟨e, hwalk⟩ | ⟨s, -, hwalk⟩
  · rw [hwalk]
  · have hsplice : applications
        (splice (byDepth s.arena) (t.dialect.migrate .schema document)).1 = [] := by
      rw [applications, List.filterMap_eq_nil_iff]
      intro event hevent
      obtain ⟨entry, -, rfl, -⟩ := Dialect.exists_missing_of_slotless hevent
      rfl
    rw [hwalk]
    simp only [applications_append, hsplice, List.append_nil]

theorem exists_applied_run (hdocument : document.WellFormed) :
    ∃ parts : List Applied, applications (t.run document).events = parts.flatMap Applied.pairs ∧
      ∀ part ∈ parts, part.Orderly t.dialect document := by
  have hwalk := t.dialect.exists_applied_follow hdocument
  rw [← t.applications_walk document] at hwalk
  have hstarted (events : List Event) :
      applications (.started t.rootId :: events) = applications events :=
    applications_cons_of_eq_none rfl events
  have hmigrated (n : Nat) : applications [.migrated n] = [] := rfl
  rcases t.run_cases document with ⟨e, hrun⟩ | ⟨e, -, hrun⟩ | ⟨m, -, hrun⟩
  · rw [hrun]
    exact ⟨[], rfl, fun _ h => absurd h List.not_mem_nil⟩
  · rw [hrun]
    simpa only [hstarted] using hwalk
  · rw [hrun]
    simpa only [applications_append, hstarted, hmigrated, List.append_nil] using hwalk

theorem exists_labelled_of_told {path label : String}
    (h : t.dialect.Told document (.attachingLabel path label)) :
    ∃ (p : Pointer) (node : Members) (xs : List Json) (i : Nat) (element : Members),
      t.dialect.ComesTo document ⟨p.place, node⟩ ∧ document.atText? p.text = some (.obj node) ∧
      node.get? "allOf" = some (.arr xs) ∧ xs[i]? = some (.obj element) ∧
      path = ((p.push "allOf").element i).text ∧ document.atText? path = some (.obj element) ∧
      discriminantTitles element = [label] := by
  cases h with
  | @label p node element xs i label hcomes hobject hallOf hx htitle =>
    refine ⟨p, node, xs, i, element, hcomes, hobject.atText?, hallOf, hx, rfl, ?_, htitle⟩
    have helements := hobject.push (by decide : Pointer.IsPlain "allOf") hallOf
    exact (helements.element hx).atText?

/-- **The log of a run agrees with its result** and with the objects of the input that it comes
    to, whether it succeeds or fails on the way. -/
theorem log_agrees (t : Transformer) (hdocument : document.WellFormed) :
    t.LogAgrees document where
  succeeded := by
    intro m h
    rcases t.run_cases document with ⟨e, hrun⟩ | ⟨e, -, hrun⟩ | ⟨walked, -, hrun⟩
    · rw [hrun] at h
      cases h
    · rw [hrun] at h
      cases h
    · rw [hrun] at h
      cases h
      refine ⟨_, congrArg Trace.events hrun, fun n hmem => ?_⟩
      rcases List.mem_cons.1 hmem with heq | hwalk
      · cases heq
      · exact migrated_not_mem_walk hdocument n hwalk
  failed := by
    intro e h n hmem
    rcases t.run_cases document with ⟨cause, hrun⟩ | ⟨cause, -, hrun⟩ | ⟨m, -, hrun⟩
    · rw [hrun] at hmem
      cases List.mem_singleton.1 hmem
    · rw [hrun] at hmem
      rcases List.mem_cons.1 hmem with heq | hwalk
      · cases heq
      · exact migrated_not_mem_walk hdocument n hwalk
    · rw [hrun] at h
      cases h
  definitions := fun _ h => visitedBy_of_run h
  applied := exists_applied_run hdocument
  labelled := by
    intro path label h
    have hwalk := mem_walk_of_mem_run h (fun heq => nomatch heq) (fun n heq => nomatch heq)
    rcases told_or_slotless_of_mem_walk hdocument hwalk with htold | ⟨m, pointer, -, heq, -⟩
    · exact exists_labelled_of_told htold
    · cases heq
  slotless := by
    intro pointer h
    have hwalk := mem_walk_of_mem_run h (fun heq => nomatch heq) (fun n heq => nomatch heq)
    rcases told_or_slotless_of_mem_walk hdocument hwalk with htold | ⟨m, found, hm, heq, hslotless⟩
    · cases htold
    · cases heq
      rcases t.run_cases document with ⟨e, hrun⟩ | ⟨e, hfails, -⟩ | ⟨walked, hwalked, hrun⟩
      · -- a run that is rejected logs nothing else
        rw [hrun] at h
        cases List.mem_singleton.1 h
      · rw [hm] at hfails
        cases hfails
      · rw [hm] at hwalked
        cases hwalked
        exact ⟨_, congrArg Trace.result hrun, hslotless⟩

/-- A document with an element to be labelled, and with a definition below an extension. -/
def loggedDocument : Json :=
  .obj [("x-props", .obj [("definitions", .obj [("a", .obj [("x-display", .str "card")])])]),
    ("allOf", .arr [.obj [("oneOf", .arr [.obj [("properties", .obj [("kind",
      .obj [("const", .str "k"), ("title", .str "Kind")])])]])]]),
    ("$ref", .str "#/x-props/definitions/a")]

theorem log_agrees_loggedDocument :
    loggedDocument.WellFormed ∧
      (run ⟨⟨Table.builtin, {}⟩, defaultRootId, none⟩ loggedDocument).events
        = [.started defaultRootId, .applyingRule "" .presentation,
          .attachingLabel "/allOf/0" "Kind", .migratingDefinition "#/x-props/definitions/a",
          .applyingRule "/x-props/definitions/a" .display,
          .definitionWithoutSlot "/x-props/definitions/a", .migrated 1] ∧
      LogAgrees ⟨⟨Table.builtin, {}⟩, defaultRootId, none⟩ loggedDocument :=
  have hdocument : loggedDocument.WellFormed := by
    simp [loggedDocument, Json.WellFormed, Json.MembersWellFormed, Json.ElementsWellFormed,
      Members.keys]
  ⟨hdocument, by decide +kernel, log_agrees _ hdocument⟩

end Transformer

end Relayout
