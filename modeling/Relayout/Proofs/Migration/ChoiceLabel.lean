/-
  Relayout/Proofs/Migration/ChoiceLabel.lean
  ==========================================
  **Which objects have a label after a walk, and which label.**

  An element of an `allOf` in the main tree has a label after a walk if it had one before, or if the
  first alternative of its choice has one discriminant (`Discriminated`), whatever the rules made of
  the alternatives: the keys that lead to a discriminant are claimed by no rule
  (`Dialect.discriminantTitles_migrate`).  References come to places in definitions only, so
  nothing that is put back changes which members the element has.  A label that is given is new, so
  that no reference leads into it; one that was there stays as it is down to the definitions in it
  that references lead to (`Migration.LabelKept`).
-/
import Relayout.Proofs.Layout.Codec
import Relayout.Proofs.Migration.Children
import Relayout.Proofs.Migration.Settled
import Relayout.Proofs.Migration.Walk

namespace Relayout

/-! ### Discriminants -/

/-- A property is a discriminant with this title: an object with a `const` and the title. -/
def IsDiscriminant (v : Json) (title : String) : Prop :=
  ∃ prop : Members, v = .obj prop ∧ "const" ∈ prop.keys ∧ prop.get? "title" = some (.str title)

/-- Exactly one of the properties is a discriminant, and this is its title. -/
def OneDiscriminant (properties : Members) (title : String) : Prop :=
  ∃ before discriminant after, properties = before ++ discriminant :: after ∧
    IsDiscriminant discriminant.2 title ∧
    ∀ other ∈ before ++ after, ∀ t, ¬ IsDiscriminant other.2 t

/-- An element is a choice whose first alternative has exactly one discriminant. -/
def Discriminated (element : Members) (title : String) : Prop :=
  ∃ (branch properties : Members) (rest : List Json),
    element.get? "oneOf" = some (.arr (.obj branch :: rest)) ∧
    branch.get? "properties" = some (.obj properties) ∧ OneDiscriminant properties title

theorem asString?_eq_some_iff {v : Json} {s : String} : v.asString? = some s ↔ v = .str s := by
  cases v <;> simp [Json.asString?]

theorem discriminantTitle?_eq_some_iff {v : Json} {title : String} :
    discriminantTitle? v = some title ↔ IsDiscriminant v title := by
  cases v with
  | obj prop =>
    simp only [discriminantTitle?, IsDiscriminant, Json.obj.injEq, exists_eq_left',
      ← Members.has_iff_mem_keys]
    cases Members.has prop "const" <;>
      simp [Option.bind_eq_some_iff, asString?_eq_some_iff]
  | null | bool | num | str | arr => simp [discriminantTitle?, IsDiscriminant]

theorem discriminantTitle?_eq_none_iff {v : Json} :
    discriminantTitle? v = none ↔ ∀ title, ¬ IsDiscriminant v title := by
  simp only [Option.eq_none_iff_forall_ne_some, Ne, discriminantTitle?_eq_some_iff]

theorem filterMap_discriminantTitle?_eq_singleton_iff {properties : Members} {title : String} :
    properties.filterMap (fun p => discriminantTitle? p.2) = [title] ↔
      OneDiscriminant properties title := by
  simp only [List.filterMap_eq_cons_iff, List.filterMap_eq_nil_iff, discriminantTitle?_eq_some_iff,
    discriminantTitle?_eq_none_iff]
  constructor
  · rintro ⟨before, discriminant, after, heq, hbefore, htitle, hafter⟩
    refine ⟨before, discriminant, after, heq, htitle, ?_⟩
    intro other hother
    rcases List.mem_append.1 hother with hmem | hmem
    · exact hbefore other hmem
    · exact hafter other hmem
  · rintro ⟨before, discriminant, after, heq, htitle, hothers⟩
    exact ⟨before, discriminant, after, heq,
      fun other hmem => hothers other (List.mem_append_left _ hmem), htitle,
      fun other hmem => hothers other (List.mem_append_right _ hmem)⟩

theorem firstBranchProperties?_eq_some_iff {element properties : Members} :
    firstBranchProperties? element = some properties ↔
      ∃ (branch : Members) (rest : List Json),
        element.get? "oneOf" = some (.arr (.obj branch :: rest)) ∧
        branch.get? "properties" = some (.obj properties) := by
  simp only [firstBranchProperties?, Option.bind_eq_bind, Option.bind_eq_some_iff]
  constructor
  · rintro ⟨choice, hchoice, branches, hbranches, first, hfirst, p, hp, hproperties⟩
    obtain ⟨rest, rfl⟩ := List.head?_eq_some_iff.1 hfirst
    cases choice <;> cases hbranches
    cases p <;> cases hproperties
    cases first with
    | obj branch => exact ⟨branch, rest, hchoice, hp⟩
    | null | bool | num | str | arr => cases hp
  · rintro ⟨branch, rest, hchoice, hproperties⟩
    exact ⟨_, hchoice, _, rfl, .obj branch, rfl, _, hproperties, rfl⟩

theorem discriminantTitles_eq_singleton_iff {element : Members} {title : String} :
    discriminantTitles element = [title] ↔ Discriminated element title := by
  rw [discriminantTitles]
  cases hfirst : firstBranchProperties? element with
  | none =>
    have hnot : ¬ Discriminated element title := by
      rintro ⟨branch, properties, rest, hchoice, hproperties, -⟩
      rw [firstBranchProperties?_eq_some_iff.2 ⟨branch, rest, hchoice, hproperties⟩] at hfirst
      cases hfirst
    simp [hnot]
  | some properties =>
    obtain ⟨branch, rest, hchoice, hproperties⟩ := firstBranchProperties?_eq_some_iff.1 hfirst
    rw [filterMap_discriminantTitle?_eq_singleton_iff]
    constructor
    · intro hone
      exact ⟨branch, properties, rest, hchoice, hproperties, hone⟩
    · rintro ⟨branch', properties', rest', hchoice', hproperties', hone⟩
      rw [hchoice] at hchoice'
      cases hchoice'
      rw [hproperties] at hproperties'
      cases hproperties'
      exact hone

/-! ### The label of a migrated element -/

namespace Dialect

variable {d : Dialect}

theorem get?_oneOfLayout_migrate (element : Members) :
    Members.get? (d.migrateMembers element ++ d.layoutMember element) "oneOfLayout"
      = element.get? "oneOfLayout" := by
  have hclaimed : d.table.recognizes "oneOfLayout" = false :=
    d.table.recognizes_eq_false (by decide)
  have hrole : Role.ofKeyword "oneOfLayout" = .verbatim := rfl
  have hmigrate : d.migrate .verbatim = id := funext d.migrate_verbatim
  rw [Members.get?_append, get?_migrateMembers, hclaimed, hrole, hmigrate, layoutMember,
    get?_optionalMember]
  simp

/-- What is done about the label of a migrated element is what the element says. -/
theorem label?_labelling_migrate {element : Members} (helement : (Json.obj element).WellFormed)
    {title : String} :
    (labelling (d.migrateMembers element ++ d.layoutMember element)).label? = some title ↔
      element.get? "oneOfLayout" = none ∧ Discriminated element title := by
  rw [label?_labelling_eq_some_iff, d.discriminantTitles_migrate helement,
    discriminantTitles_eq_singleton_iff, Bool.eq_false_iff, Ne, Members.has_iff_mem_keys,
    ← Members.get?_eq_none_iff, get?_oneOfLayout_migrate]

theorem get?_oneOfLayout_attachLabel (element : Members) :
    (attachLabel (d.migrateMembers element ++ d.layoutMember element)).get? "oneOfLayout"
      = (element.get? "oneOfLayout").or
          ((labelling (d.migrateMembers element ++ d.layoutMember element)).label?.map
            (fun label => .obj [("label", .str label)])) := by
  rw [attachLabel_eq, Members.get?_append, get?_oneOfLayout_migrate, get?_optionalMember, if_pos rfl]
  rfl

theorem get?_oneOfLayout_of_discriminated {element : Members}
    (helement : (Json.obj element).WellFormed) {title : String}
    (hnone : element.get? "oneOfLayout" = none) (hone : Discriminated element title) :
    (attachLabel (d.migrateMembers element ++ d.layoutMember element)).get? "oneOfLayout"
      = some (.obj [("label", .str title)]) := by
  rw [get?_oneOfLayout_attachLabel, hnone, Option.none_or,
    (label?_labelling_migrate helement).2 ⟨hnone, hone⟩, Option.map_some]

/-- A migrated element has a label if it had one or says what it is to be. -/
theorem oneOfLayout_mem_keys_attachLabel_iff {element : Members}
    (helement : (Json.obj element).WellFormed) :
    "oneOfLayout" ∈ (attachLabel (d.migrateMembers element ++ d.layoutMember element)).keys ↔
      "oneOfLayout" ∈ element.keys ∨ ∃ title, Discriminated element title := by
  rw [← not_iff_not, not_or, not_exists, ← Members.get?_eq_none_iff, ← Members.get?_eq_none_iff,
    get?_oneOfLayout_attachLabel, Option.or_eq_none_iff, Option.map_eq_none_iff]
  apply and_congr_right
  intro hnone
  rw [Option.eq_none_iff_forall_ne_some]
  apply forall_congr'
  intro title
  rw [Ne, label?_labelling_migrate helement, not_and]
  exact imp_iff_right hnone

end Dialect

/-! ### Elements in the main tree -/

/-- An element of the `allOf` of an object that a walk visits from the root by keywords. -/
def Json.MainElement (document : Json) (place : Place) (element : Members) : Prop :=
  ∃ visit ∈ document.visits .schema [], ∃ (xs : List Json) (i : Nat),
    visit.node.get? "allOf" = some (.arr xs) ∧ xs[i]? = some (.obj element) ∧
    place = visit.place ++ ["allOf", toString i]

namespace Dialect

variable {d : Dialect} {document : Json} {m : Migration} {place : Place} {element : Members}

/-- An element of an `allOf` in the main tree is where it is treated as one. -/
theorem below_eq_labelled_of_mainElement (hdocument : document.WellFormed)
    (h : document.MainElement place element) :
    document.at? place = some (.obj element) ∧
      (Treatment.inRole .schema).below document place = .labelled := by
  obtain ⟨visit, hvisit, xs, i, hallOf, hx, rfl⟩ := h
  obtain ⟨above, habove, hnode, hvisits⟩ := (Json.mem_visits_schema_iff hdocument []).1 hvisit
  rw [List.nil_append] at habove
  have hlist : (Json.obj visit.node).child? "allOf" = some (.arr xs) := hallOf
  have hchild : (Json.arr xs).child? (toString i) = some (.obj element) :=
    (Json.child?_toString xs i).trans hx
  rw [habove]
  constructor
  · rw [Json.at?_append_of_eq_some hnode, Json.at?_cons, hlist, Option.bind_some, Json.at?_singleton,
      hchild]
  · rw [Treatment.below_append _ hnode, Treatment.below, hlist]
    simp only [Treatment.child_of_visits hvisits]
    rw [Treatment.below, hchild]
    rfl

/-- What is put back is not at or above a place to which nothing leads through definitions. -/
theorem not_reached_above (h : (d.walk document).result = .ok m)
    (hplace : throughDefinitions place = false) :
    ∀ above ∈ placesOf m.resolved, ¬ above <+: place := by
  intro above habove hupto
  have hlazy := (reached_place h habove).1
  rw [throughDefinitions_above hupto hplace] at hlazy
  cases hlazy

theorem at?_migrate_of_labelled (hat : document.at? place = some (.obj element))
    (htreated : (Treatment.inRole .schema).below document place = .labelled) :
    (d.migrate .schema document).at? place
      = some (.obj (attachLabel (d.migrateMembers element ++ d.layoutMember element))) := by
  have hsurvives := d.survives_treat (.inRole .schema) document place element hat
    (by rw [htreated]; rfl)
  rcases d.at?_treat (t := .inRole .schema) hat with hkept | ⟨hlost, -⟩
  · rw [htreated] at hkept
    exact hkept
  · exact absurd hlost hsurvives

/-- An object of the main tree has the keys that its migration has. -/
theorem exists_obj_of_walk (h : (d.walk document).result = .ok m)
    (hplace : throughDefinitions place = false) {migrated : Members}
    (hmigrated : (d.migrate .schema document).at? place = some (.obj migrated)) :
    ∃ out : Members, m.schema.at? place = some (.obj out) ∧ out.keys = migrated.keys := by
  have hshape := shapeAt_walk_of_not_reached h (not_reached_above h hplace)
  rw [Json.shapeAt, Json.shapeAt, hmigrated] at hshape
  obtain ⟨v, hv, hobj⟩ := Option.map_eq_some_iff.1 hshape
  cases v with
  | obj out => exact ⟨out, hv, Shape.obj.inj hobj⟩
  | null | bool | num | str | arr => cases hobj

/-- A member of it is what the migration makes of it, down to definitions in it that references
    lead to. -/
theorem agreeOutside_member (h : (d.walk document).result = .ok m)
    (hplace : throughDefinitions place = false) {out migrated : Members}
    (hout : m.schema.at? place = some (.obj out))
    (hmigrated : (d.migrate .schema document).at? place = some (.obj migrated))
    {key : String} {v w : Json} (hv : migrated.get? key = some v) (hw : out.get? key = some w) :
    w.AgreeOutside (fun below => place ++ key :: below ∈ placesOf m.resolved) v := by
  intro deeper hdeeper
  have hshape : m.schema.shapeAt (place ++ key :: deeper)
      = (d.migrate .schema document).shapeAt (place ++ key :: deeper) := by
    apply shapeAt_walk_of_not_reached h
    intro above habove hupto
    -- such a place is above the object, the object itself, or inside the member
    rcases List.prefix_or_prefix_of_prefix hupto (List.prefix_append _ _) with
      hshort | ⟨rest, rfl⟩
    · exact not_reached_above h hplace above habove hshort
    · cases rest with
      | nil => exact not_reached_above h hplace _ habove (by simp)
      | cons name rest =>
        obtain ⟨rfl, hrest⟩ := List.cons_prefix_cons.1 ((List.prefix_append_right_inj _).1 hupto)
        exact hdeeper rest hrest habove
  rwa [Json.shapeAt_append_of_eq_some hout, Json.shapeAt_append_of_eq_some hmigrated,
    Json.shapeAt, Json.shapeAt, Json.at?_cons, Json.at?_cons,
    show (Json.obj out).child? key = some w from hw,
    show (Json.obj migrated).child? key = some v from hv] at hshape

/-- Without references into it, a member is what the migration makes of it. -/
theorem eq_of_agreeOutside_of_not_reached {v w : Json} {key : String} (hv : v.WellFormed)
    (hw : w.WellFormed)
    (hagree : w.AgreeOutside (fun below => place ++ key :: below ∈ placesOf m.resolved) v)
    (hnone : ∀ below, place ++ key :: below ∉ placesOf m.resolved) : w = v := by
  rw [← Json.agreeOutside_nowhere_iff hw hv]
  intro deeper _
  exact hagree deeper (fun above _ => hnone above)

theorem exists_members_of_walk (hdocument : document.WellFormed)
    (h : (d.walk document).result = .ok m) (hplace : throughDefinitions place = false)
    {migrated : Members}
    (hmigrated : (d.migrate .schema document).at? place = some (.obj migrated)) :
    ∃ out : Members, m.schema.at? place = some (.obj out) ∧ out.keys = migrated.keys ∧
      ∀ key v, migrated.get? key = some v → ∃ w, out.get? key = some w ∧
        w.AgreeOutside (fun below => place ++ key :: below ∈ placesOf m.resolved) v ∧
        ((∀ below, place ++ key :: below ∉ placesOf m.resolved) → w = v) := by
  obtain ⟨out, hout, hkeys⟩ := exists_obj_of_walk h hplace hmigrated
  refine ⟨out, hout, hkeys, ?_⟩
  intro key v hv
  have hmem : key ∈ out.keys := by
    rw [hkeys]
    exact (Members.has_iff_mem_keys migrated key).1 (Members.has_of_get?_eq_some hv)
  obtain ⟨w, hw⟩ : ∃ w, out.get? key = some w := by
    rw [← Option.ne_none_iff_exists', Ne, Members.get?_eq_none_iff, not_not]
    exact hmem
  have hagree := agreeOutside_member h hplace hout hmigrated hv hw
  have hvWell : v.WellFormed := ((hdocument.migrate d .schema).at hmigrated).child hv
  have hwWell : w.WellFormed := ((wellFormed_walk hdocument h).at hout).child hw
  exact ⟨w, hw, hagree, eq_of_agreeOutside_of_not_reached hvWell hwWell hagree⟩

end Dialect

/-! ### Labels after a walk -/

/-- What has become of the label of an element: it is there if it was, or if the element says what
    it is to be. -/
structure Migration.LabelKept (m : Migration) (place : Place) (element out : Members) : Prop where
  has_iff : "oneOfLayout" ∈ out.keys ↔
    "oneOfLayout" ∈ element.keys ∨ ∃ title, Discriminated element title
  /-- A label that was there stays as it is, but for definitions in it that references lead to. -/
  kept : ∀ v, element.get? "oneOfLayout" = some v → ∃ w, out.get? "oneOfLayout" = some w ∧
    w.AgreeOutside (fun below => place ++ "oneOfLayout" :: below ∈ placesOf m.resolved) v ∧
    ((∀ below, place ++ "oneOfLayout" :: below ∉ placesOf m.resolved) → w = v)
  given : ∀ title, "oneOfLayout" ∉ element.keys → Discriminated element title →
    out.get? "oneOfLayout" = some (.obj [("label", .str title)])

namespace Dialect

variable {d : Dialect} {document : Json} {m : Migration} {place : Place}

theorem not_reached_of_get?_eq_none (h : (d.walk document).result = .ok m) {element : Members}
    (hat : document.at? place = some (.obj element)) {key : String}
    (hnone : element.get? key = none) (below : Place) :
    place ++ key :: below ∉ placesOf m.resolved := by
  intro hreached
  obtain ⟨-, target, htarget⟩ := reached_place h hreached
  rw [Json.at?_append_of_eq_some hat, Json.at?_cons, show (Json.obj element).child? key = none
    from hnone] at htarget
  cases htarget

theorem labelKept_of_walk (hdocument : document.WellFormed)
    (h : (d.walk document).result = .ok m) {element : Members}
    (helement : document.MainElement place element) :
    ∃ out : Members, m.schema.at? place = some (.obj out) ∧ m.LabelKept place element out := by
  obtain ⟨hat, htreated⟩ := below_eq_labelled_of_mainElement hdocument helement
  have hplace : throughDefinitions place = false := by
    rw [Bool.eq_false_iff]
    intro hlazy
    rw [Treatment.below_eq_verbatim document hlazy] at htreated
    cases htreated
  have hmigrated := at?_migrate_of_labelled (d := d) hat htreated
  obtain ⟨out, hout, hkeys, hmembers⟩ := exists_members_of_walk hdocument h hplace hmigrated
  have hwell : (Json.obj element).WellFormed := hdocument.at hat
  refine ⟨out, hout, ?_, ?_, ?_⟩
  · rw [hkeys]
    exact oneOfLayout_mem_keys_attachLabel_iff hwell
  · intro v hv
    apply hmembers
    rw [get?_oneOfLayout_attachLabel, hv, Option.some_or]
  · intro title hnew hone
    have hnone : element.get? "oneOfLayout" = none := (Members.get?_eq_none_iff element _).2 hnew
    -- a label that is new has no definitions that a reference could lead to
    obtain ⟨w, hw, -, heq⟩ := hmembers _ _ (get?_oneOfLayout_of_discriminated hwell hnone hone)
    obtain rfl := heq (not_reached_of_get?_eq_none h hat hnone)
    exact hw

/-- An object that gains a label is an element of the `allOf` of a visited object. -/
theorem exists_allOf_of_gained_label (h : (d.walk document).result = .ok m) {v : Json}
    {out : Members} (hv : document.at? place = some v) (hout : m.schema.at? place = some (.obj out))
    (hlabel : "oneOfLayout" ∈ out.keys) :
    (∃ ms : Members, v = .obj ms ∧ "oneOfLayout" ∈ ms.keys) ∨
      ∃ (above : Place) (node : Members) (xs : List Json) (i : Nat),
        place = above ++ ["allOf", toString i] ∧ m.Visited document above node ∧
        node.get? "allOf" = some (.arr xs) := by
  obtain ⟨start, hstart, target, below, rfl, htarget, hat, hshape⟩ := exists_treated_of_walk h hv hout
  rcases ((Treatment.inRole .schema).below target below).visited_or_not v with
    ⟨hvisits, ms, rfl⟩ | hnot
  · obtain ⟨label, htreat, hkeys⟩ := d.treat_obj_of_visits hvisits ms
    rw [htreat] at hshape
    have hout : out.keys = (d.migrateMembers ms ++ d.layoutMember ms ++ label).keys :=
      Shape.obj.inj hshape
    rw [hout, Members.keys_append, List.mem_append, ← not_not (a := _ ∈ Members.keys (_ ++ _)),
      ← Members.get?_eq_none_iff, get?_oneOfLayout_migrate, Members.get?_eq_none_iff,
      not_not] at hlabel
    rcases hlabel with hold | hnew
    · exact Or.inl ⟨ms, rfl, hold⟩
    · right
      rcases hkeys with hnone | ⟨-, -, hlabelled⟩
      · rw [hnone] at hnew
        cases hnew
      · obtain ⟨above, node, xs, i, rfl, hnode, hallOf, hvisitsNode⟩ :=
          Treatment.exists_allOf_of_below_eq_labelled hat hlabelled
        exact ⟨start ++ above, node, xs, i, (List.append_assoc _ _ _).symm,
          visited_of_below hstart htarget hnode hvisitsNode, hallOf⟩
  · rw [d.shape_treat_of_not_visits hnot] at hshape
    left
    cases v with
    | obj ms => exact ⟨ms, rfl, Shape.obj.inj hshape ▸ hlabel⟩
    | null | bool | num | str | arr => cases hshape

/-- **Labels in the main tree**: which elements have one after a walk is told from the document
    alone, and no other object gains one. -/
theorem choiceLabels_walk (hdocument : document.WellFormed)
    (h : (d.walk document).result = .ok m) :
    (∀ place element, document.MainElement place element →
      ∃ out : Members, m.schema.at? place = some (.obj out) ∧ m.LabelKept place element out) ∧
    ∀ (place : Place) (v : Json) (out : Members), document.at? place = some v →
      m.schema.at? place = some (.obj out) → "oneOfLayout" ∈ out.keys →
      (∃ ms : Members, v = .obj ms ∧ "oneOfLayout" ∈ ms.keys) ∨
        ∃ (above : Place) (node : Members) (xs : List Json) (i : Nat),
          place = above ++ ["allOf", toString i] ∧ m.Visited document above node ∧
          node.get? "allOf" = some (.arr xs) := by
  constructor
  · intro place element helement
    exact labelKept_of_walk hdocument h helement
  · intro place v out hv hout hlabel
    exact exists_allOf_of_gained_label h hv hout hlabel

/-- A choice whose properties have extensions, and a label that holds a definition. -/
def labelledDocument : Json :=
  .obj [("allOf", .arr [
      .obj [("oneOf", .arr [.obj [("properties", .obj [
        ("kind", .obj [("x-display", .str "select"), ("const", .str "a"), ("title", .str "Kind")]),
        ("size", .obj [("title", .str "Size")])])]])],
      .obj [("oneOfLayout", .obj [("label", .str "Own"),
        ("definitions", .obj [("a", .obj [("x-display", .str "card")])])])]]),
    ("not", .obj [("$ref", .str "#/allOf/1/oneOfLayout/definitions/a")])]

/-- What a walk of it gives. -/
def labelledMigration : Migration where
  schema := .obj [("allOf", .arr [
      .obj [("oneOf", .arr [.obj [("properties", .obj [
          ("kind", .obj [("const", .str "a"), ("title", .str "Kind"), ("layout", .str "select")]),
          ("size", .obj [("title", .str "Size")])])]]),
        ("oneOfLayout", .obj [("label", .str "Kind")])],
      .obj [("oneOfLayout", .obj [("label", .str "Own"),
        ("definitions", .obj [("a", .obj [("layout", .str "card")])])])]]),
    ("not", .obj [("$ref", .str "#/allOf/1/oneOfLayout/definitions/a")])]
  resolved := ["#/allOf/1/oneOfLayout/definitions/a"]

theorem choiceLabels_walk_labelledDocument :
    labelledDocument.WellFormed ∧
      (walk ⟨Table.builtin, {}⟩ labelledDocument).result = .ok labelledMigration ∧
      (∀ place element, labelledDocument.MainElement place element →
        ∃ out : Members, labelledMigration.schema.at? place = some (.obj out) ∧
          labelledMigration.LabelKept place element out) ∧
      ∀ (place : Place) (v : Json) (out : Members), labelledDocument.at? place = some v →
        labelledMigration.schema.at? place = some (.obj out) → "oneOfLayout" ∈ out.keys →
        (∃ ms : Members, v = .obj ms ∧ "oneOfLayout" ∈ ms.keys) ∨
          ∃ (above : Place) (node : Members) (xs : List Json) (i : Nat),
            place = above ++ ["allOf", toString i] ∧
            labelledMigration.Visited labelledDocument above node ∧
            node.get? "allOf" = some (.arr xs) :=
  have hwell : labelledDocument.WellFormed := by
    simp [labelledDocument, Json.WellFormed, Json.MembersWellFormed, Json.ElementsWellFormed,
      Members.keys]
  have hwalk : (walk ⟨Table.builtin, {}⟩ labelledDocument).result = .ok labelledMigration :=
    Trace.result_eq_ok_of_toOption (by decide +kernel)
  ⟨hwell, hwalk, choiceLabels_walk hwell hwalk⟩

/-- A document with nothing but a label that holds a definition, and a reference to it. -/
def ownLabelDocument : Json :=
  .obj [("allOf", .arr [.obj [("oneOfLayout", .obj [("label", .str "L"),
      ("definitions", .obj [("a", .obj [("x-display", .str "card")])])])]]),
    ("not", .obj [("$ref", .str "#/allOf/0/oneOfLayout/definitions/a")])]

/-- What a walk of it gives. -/
def ownLabelMigration : Migration where
  schema := .obj [("allOf", .arr [.obj [("oneOfLayout", .obj [("label", .str "L"),
      ("definitions", .obj [("a", .obj [("layout", .str "card")])])])]]),
    ("not", .obj [("$ref", .str "#/allOf/0/oneOfLayout/definitions/a")])]
  resolved := ["#/allOf/0/oneOfLayout/definitions/a"]

/-- The label of an element may change: a reference leads to a definition in it. -/
theorem label_changed_ownLabelDocument :
    (walk ⟨Table.builtin, {}⟩ ownLabelDocument).result = .ok ownLabelMigration ∧
      ownLabelDocument.MainElement ["allOf", "0"]
        [("oneOfLayout", .obj [("label", .str "L"),
          ("definitions", .obj [("a", .obj [("x-display", .str "card")])])])] ∧
      ownLabelMigration.schema.at? ["allOf", "0"]
        = some (.obj [("oneOfLayout", .obj [("label", .str "L"),
          ("definitions", .obj [("a", .obj [("layout", .str "card")])])])]) ∧
      ownLabelMigration.schema.at? ["allOf", "0", "oneOfLayout"]
        ≠ ownLabelDocument.at? ["allOf", "0", "oneOfLayout"] := by
  refine ⟨Trace.result_eq_ok_of_toOption (by decide +kernel), ?_, by decide +kernel,
    by decide +kernel⟩
  have hroot : ⟨[] ++ [], _⟩ ∈ ownLabelDocument.visits .schema [] :=
    Json.mem_visits_of_below (t := .inRole .schema) [] rfl rfl
  exact ⟨_, hroot, _, 0, rfl, rfl, rfl⟩

end Dialect

end Relayout
