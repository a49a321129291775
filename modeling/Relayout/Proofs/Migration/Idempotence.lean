/-
  Relayout/Proofs/Migration/Idempotence.lean
  ==========================================
  **A second run changes nothing.**

  When a document has been migrated and no visited object was lost (`Migration.Intact`),
  migrating the result gives the same result, down to the order of the keys, and the same
  references in the same order (`Transformer.run_run`).

  The second run follows the references of the first, because visited objects carry what
  they carried (`Dialect.search_second`).  So it has the same starts, and it does not fail:
  what it visits was visited before and stays acceptable, or was added and is inert
  (`Dialect.exists_walk_second`).  At each place it shows what the deepest start makes of what
  is there, and that is settled (`Dialect.shapeAt_second`).
-/
import Relayout.Proofs.Migration.Revisit

namespace Relayout

open DepthFirst (Reachable Search)

/-- Every object that was visited still has its place, and its reference still resolves. -/
structure Migration.Intact (m : Migration) (document : Json) : Prop where
  objects : ∀ place node, m.Visited document place node → m.schema.at? place ≠ none
  refs : ∀ place node ref, m.Visited document place node → node.get? "$ref" = some (.str ref) →
    m.schema.Resolves ref

/-- The visits of the starts tell whether anything was lost. -/
theorem Migration.intact_of_visits {m : Migration} {document : Json}
    (h : ∀ start ∈ m.starts, ∀ target ∈ document.at? start,
      ∀ visit ∈ target.visits .schema start, (m.schema.at? visit.place).isSome = true ∧
        ∀ ref ∈ visit.ref?, ∀ fragment ∈ internalFragment? ref,
          (locate? m.schema fragment).isSome = true) : m.Intact document := by
  constructor
  · rintro place node ⟨-, start, hstart, target, htarget, hvisit⟩
    exact Option.isSome_iff_ne_none.1 (h start hstart target htarget _ hvisit).1
  · rintro place node ref ⟨-, start, hstart, target, htarget, hvisit⟩ href fragment hfragment
    have hcarried : (⟨place, node⟩ : Visit).ref? = some ref := Json.ref?_eq_some_iff.2 href
    exact Option.isSome_iff_ne_none.1
      ((h start hstart target htarget _ hvisit).2 ref hcarried fragment hfragment)

/-! ### The second walk -/

namespace Dialect

variable {d : Dialect} {document : Json} {m : Migration} {id : String}

section Second

variable (h : (d.walk document).result = .ok m) (hdocument : document.WellFormed)
  (hintact : Migration.Intact ⟨m.schema.stamped id, m.resolved⟩ document)

include hintact

theorem survives_of_intact {start : Place} (hstart : start ∈ m.starts) {target out : Json}
    (htarget : document.at? start = some target)
    (hout : (m.schema.stamped id).at? start = some out) :
    (Treatment.inRole .schema).Survives target out := by
  intro below node hnode hvisits hnone
  have hvisited : m.Visited document (start ++ below) node :=
    visited_of_below hstart htarget hnode hvisits
  apply hintact.objects _ _ hvisited
  exact (Json.at?_append_of_eq_some hout below).trans hnone

include h hdocument

/-- The places at which visits started are still there. -/
theorem exists_out_of_mem_starts {start : Place} (hstart : start ∈ m.starts) :
    ∃ out, (m.schema.stamped id).at? start = some out := by
  have hsearch := search_of_walk h
  rcases List.mem_cons.1 hstart with rfl | hreached
  · exact ⟨_, rfl⟩
  · obtain ⟨ref, href, p, hp, rfl⟩ := mem_placesOf.1 hreached
    obtain ⟨⟨place, node⟩, hvisit, hcarried⟩ :=
      Json.exists_carrier hdocument (hsearch.mem_iff_reachable.1 href)
    have hvisited := (Migration.visited_iff hsearch hdocument).2 hvisit
    have hresolves := hintact.refs place node ref hvisited (Json.ref?_eq_some_iff.1 hcarried)
    exact Option.ne_none_iff_exists'.1 ((Json.resolves_iff hp).1 hresolves)

/-- Visits from a start follow the references that they followed. -/
theorem definitionRefs_second {start : Place} (hstart : start ∈ m.starts) {target out : Json}
    (htarget : document.at? start = some target)
    (hout : (m.schema.stamped id).at? start = some out) :
    out.definitionRefs = target.definitionRefs := by
  have hreworks := (reworks_stamped_walk h id).at_place htarget hout
  have hsurvives := survives_of_intact hintact hstart htarget hout
  have hwell : (m.schema.stamped id).WellFormed := (wellFormed_walk hdocument h).stamped id
  have hcarried := hreworks.carried_eq hsurvives (hdocument.at htarget) (hwell.at hout)
  exact congrArg (List.filter leadsIntoDefinitions) hcarried

/-- The second walk searches the references that the first has reached. -/
theorem search_second : Search (m.schema.stamped id).targetRefs
    (m.schema.stamped id).definitionRefs [] m.resolved := by
  have hroot := definitionRefs_second h hdocument hintact (List.mem_cons_self) rfl rfl
  rw [hroot]
  apply (search_of_walk h).congr
  intro ref href
  obtain ⟨arena, -, hkept, -⟩ := exists_arena_of_walk h
  obtain ⟨⟨p, kept⟩, -, hp, -, target, htarget, -⟩ := hkept ref href
  have hstart : p.place ∈ m.starts := by
    apply List.mem_cons_of_mem
    exact mem_placesOf.2 ⟨ref, href, p, hp, rfl⟩
  obtain ⟨out, hout⟩ := exists_out_of_mem_starts h hdocument hintact hstart
  have hsame := definitionRefs_second h hdocument hintact hstart htarget hout
  simp only at hp htarget
  simp only [Json.targetRefs, Json.target?, hp, Option.bind_some, htarget, hout, hsame]

/-- What the second walk visits was acceptable to the first, or was added. -/
theorem exists_walk_second : ∃ m', (d.walk (m.schema.stamped id)).result = .ok m' := by
  apply exists_walk_of_acceptable
  intro visit hvisit
  rcases exists_origin_of_visited h hdocument hvisit with hinert | ⟨node, hnode, hreworks⟩
  · exact acceptable_of_inert hinert
  · have hvisited := (Migration.visited_iff (search_of_walk h) hdocument).1 hnode
    have hacceptable : d.Acceptable document node := acceptable_of_walk h hvisited
    apply hacceptable.of_reworks hreworks
    intro ref href
    exact hintact.refs _ node ref hnode href

omit hintact in
/-- What was gained below a start is data to the visit of that start. -/
theorem below_gained {start below : Place} (hdeepest : m.Deepest start below) {target out w : Json}
    (htarget : document.at? start = some target)
    (hout : (m.schema.stamped id).at? start = some out) (hnone : target.at? below = none)
    (hw : out.at? below = some w) :
    (Treatment.inRole .schema).below out below = .inRole .verbatim := by
  have hreworks := (reworks_stamped_walk h id).at_place htarget hout
  obtain ⟨above, name, rest, rfl, habove, hgained⟩ := Json.exists_gained hnone
  obtain ⟨v, hv⟩ := Option.ne_none_iff_exists'.1 habove
  rw [Json.at?_append, Option.bind_eq_some_iff] at hw
  obtain ⟨owner, howner, hrest⟩ := hw
  obtain ⟨added, hadded, -⟩ := Option.bind_eq_some_iff.1 hrest
  rw [Json.at?_append_of_eq_some hv, Json.at?_singleton] at hgained
  have hpair := hreworks.at_place hv howner
  have hname := (hpair.inert hgained hadded).1
  have hdeepestAbove : m.Deepest start above := by
    refine ⟨hdeepest.1, fun other hother hbelow hupto => hdeepest.2 other hother hbelow ?_⟩
    exact hupto.trans ((List.prefix_append_right_inj start).2 (List.prefix_append above _))
  have hsettled := settled_stamped_walk h hdocument id hdeepestAbove htarget hv
    ((Json.at?_append_of_eq_some hout above).trans howner)
  -- an object that is not visited gains nothing
  have hvisited : ((Treatment.inRole .schema).below target above).visits = true ∧
      ∃ node, v = .obj node := by
    apply (Treatment.visited_or_not _ v).resolve_right
    intro hnot
    have hshape := hsettled.unvisited hnot
    rw [Json.child?_eq_none_of_shape_eq hshape.symm hgained] at hadded
    cases hadded
  obtain ⟨hvisits, node, rfl⟩ := hvisited
  obtain ⟨ns, rfl⟩ : ∃ ns, owner = .obj ns := by
    cases hpair.root
    exact ⟨_, rfl⟩
  rw [← hreworks.below_eq _ (by simp [hv]) (by simp [howner])] at hvisits
  exact Treatment.below_copied howner hvisits (ofKeyword_of_mem_addedKeys hname) rest

/-- What the visit of the deepest start makes of what is at a place has its shape already. -/
theorem shape_treat_second {start below : Place} (hdeepest : m.Deepest start below)
    {out w : Json} (hout : (m.schema.stamped id).at? start = some out)
    (hw : out.at? below = some w) :
    (d.treat ((Treatment.inRole .schema).below out below) w).shape = w.shape := by
  obtain ⟨target, htarget⟩ := exists_target_of_mem_starts h hdeepest.1
  have hreworks := (reworks_stamped_walk h id).at_place htarget hout
  have hwell : (m.schema.stamped id).WellFormed := (wellFormed_walk hdocument h).stamped id
  cases hv : target.at? below with
  | none =>
    rw [below_gained h hdocument hdeepest htarget hout hv hw, treat, migrate_verbatim]
  | some v =>
    have hsettled := settled_stamped_walk h hdocument id hdeepest htarget hv
      ((Json.at?_append_of_eq_some hout below).trans hw)
    have hsurvives : ((Treatment.inRole .schema).below target below).Survives v w :=
      (survives_of_intact hintact hdeepest.1 htarget hout).at_place hv hw
    rw [hreworks.below_eq _ (by simp [hv]) (by simp [hw])]
    exact hsettled.shape_treat (hreworks.at_place hv hw) hsurvives ((hdocument.at htarget).at hv)
      ((hwell.at hout).at hw)

/-- The second walk shows at each place what is there. -/
theorem shapeAt_second {m' : Migration} (h' : (d.walk (m.schema.stamped id)).result = .ok m')
    (hresolved : m'.resolved = m.resolved) (place : Place) :
    ∀ above, above <+: place → m'.schema.shapeAt above = (m.schema.stamped id).shapeAt above := by
  have hsame {above : Place} {w w' : Json} (hw : (m.schema.stamped id).at? above = some w)
      (hw' : m'.schema.at? above = some w') : w'.shape = w.shape := by
    obtain ⟨start, below, rfl, hdeepest⟩ := m'.exists_deepest above
    have hdeepestFirst : m.Deepest start below := by
      unfold Migration.Deepest Migration.starts at hdeepest ⊢
      rwa [hresolved] at hdeepest
    obtain ⟨out, hout⟩ := exists_out_of_mem_starts h hdocument hintact hdeepestFirst.1
    rw [Json.at?_append_of_eq_some hout] at hw
    rw [shape_eq_of_deepest h' hdeepest hout hw hw']
    exact shape_treat_second h hdocument hintact hdeepestFirst hout hw
  induction place using List.reverseRecOn with
  | nil =>
    intro above habove
    obtain rfl := List.prefix_nil.1 habove
    have hroot : m'.schema.shape = (m.schema.stamped id).shape :=
      hsame (Json.at?_nil _) (Json.at?_nil _)
    exact congrArg some hroot
  | append_singleton parent name ih =>
    intro above habove
    rcases List.prefix_concat_iff.1 habove with rfl | hshort
    · have hparent := ih parent List.prefix_rfl
      cases hw : (m.schema.stamped id).at? (parent ++ [name]) with
      | none =>
        have hw' := Json.at?_append_singleton_eq_none hparent.symm hw
        simp [Json.shapeAt, hw, hw']
      | some w =>
        cases hw' : m'.schema.at? (parent ++ [name]) with
        | none =>
          rw [Json.at?_append_singleton_eq_none hparent hw'] at hw
          cases hw
        | some w' => simp [Json.shapeAt, hw, hw', hsame hw hw']
    · exact ih above hshort

/-- **The second walk gives back what it was given.** -/
theorem walk_second :
    (d.walk (m.schema.stamped id)).result = .ok ⟨m.schema.stamped id, m.resolved⟩ := by
  obtain ⟨m', h'⟩ := exists_walk_second h hdocument hintact
  have hresolved : m'.resolved = m.resolved :=
    (search_second h hdocument hintact).unique (search_of_walk h')
  have hwell : (m.schema.stamped id).WellFormed := (wellFormed_walk hdocument h).stamped id
  have hschema : m'.schema = m.schema.stamped id := by
    apply Json.eq_of_shapeAt_eq _ _ (wellFormed_walk hwell h') hwell
    intro place
    exact shapeAt_second h hdocument hintact h' hresolved place place List.prefix_rfl
  rw [h', ← hschema, ← hresolved]

end Second

end Dialect

theorem Json.stamped_stamped (v : Json) (id : String) :
    (v.stamped id).stamped id = v.stamped id := by
  cases v with
  | obj root =>
    rcases stamped_obj id root with hsame | ⟨hnew, -⟩
    · rw [hsame, hsame]
    · rw [hnew]
      simp [stamped, stampRootId, Members.has]
  | null | bool | num | str | arr => rfl

namespace Transformer

/-- **A second run changes nothing**: where no visited object was lost, and the references of
    visited objects still resolve, it gives the same document and the same references. -/
theorem run_run {t : Transformer} (hvalidator : t.validator = none) {document : Json}
    (hdocument : document.WellFormed) {m : Migration} (h : (t.run document).result = .ok m)
    (hintact : m.Intact document) : (t.run m.schema).result = .ok m := by
  obtain ⟨schema, hwalk, hstamped⟩ := exists_walk_of_run h
  obtain ⟨_, resolved⟩ := m
  obtain rfl : _ = schema.stamped t.rootId := hstamped
  have hsecond := Dialect.walk_second hwalk hdocument hintact
  rw [run, precheck, hvalidator, Trace.after_result]
  apply Trace.bind_result_eq_ok_iff.2
  refine ⟨_, hsecond, ?_⟩
  rw [Json.stamped_stamped]

/-- Two references of which one leads into the other, with layouts, a label and no root id. -/
def nestedRefsDocument : Json :=
  .obj [("properties", .obj [("x", .obj [("$ref", .str "#/definitions/a")]),
      ("y", .obj [("$ref", .str "#/definitions/a/properties/k")])]),
    ("definitions", .obj [("a", .obj [("x-display", .str "card"),
      ("allOf", .arr [.obj [("oneOf", .arr [.obj [("properties", .obj [("kind", .obj
        [("const", .str "circle"), ("title", .str "Kind")])])]])]]),
      ("properties", .obj [("k", .obj [("x-display", .str "chip")])])])])]

def nestedRefsMigration : Migration where
  schema := .obj [("properties", .obj [("x", .obj [("$ref", .str "#/definitions/a")]),
      ("y", .obj [("$ref", .str "#/definitions/a/properties/k")])]),
    ("definitions", .obj [("a", .obj [
      ("allOf", .arr [.obj [("oneOf", .arr [.obj [("properties", .obj [("kind", .obj
        [("const", .str "circle"), ("title", .str "Kind")])])]]),
        ("oneOfLayout", .obj [("label", .str "Kind")])]]),
      ("properties", .obj [("k", .obj [("layout", .str "chip")])]), ("layout", .str "card")])]),
    ("$id", .str "_jl")]
  resolved := ["#/definitions/a", "#/definitions/a/properties/k"]

theorem run_run_nestedRefsDocument :
    nestedRefsDocument.WellFormed ∧
      (run ⟨⟨Table.builtin, {}⟩, defaultRootId, none⟩ nestedRefsDocument).result
        = .ok nestedRefsMigration ∧
      nestedRefsMigration.Intact nestedRefsDocument ∧
      (run ⟨⟨Table.builtin, {}⟩, defaultRootId, none⟩ nestedRefsMigration.schema).result
        = .ok nestedRefsMigration := by
  have hdocument : nestedRefsDocument.WellFormed := by
    simp [nestedRefsDocument, Json.WellFormed, Json.MembersWellFormed, Json.ElementsWellFormed,
      Members.keys]
  have hrun : (run ⟨⟨Table.builtin, {}⟩, defaultRootId, none⟩ nestedRefsDocument).result
      = .ok nestedRefsMigration := Trace.result_eq_ok_of_toOption (by decide +kernel)
  have hintact : nestedRefsMigration.Intact nestedRefsDocument :=
    Migration.intact_of_visits (by decide +kernel)
  exact ⟨hdocument, hrun, hintact, run_run rfl hdocument hrun hintact⟩

end Transformer

end Relayout
