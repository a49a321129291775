/-
  Relayout/Proofs/Migration/Settled.lean
  ======================================
  **What has been migrated once is settled.**

  A migration reworks a value and lets every object survive that it visits
  (`Dialect.reworks_treat`, `Dialect.survives_treat`), and so does a walk with a document
  (`Dialect.reworks_walk`).  Where the walk has treated a value, the value is `Settled`: it has
  no claimed key left and no label is due.  Treating a settled value again leaves its shape
  as it is (`Settled.shape_treat`).
-/
import Relayout.Proofs.Migration.Conservation
import Relayout.Proofs.Migration.Discriminant

namespace Relayout

/-- The second value is what a treatment of the first leaves, and has nothing left to treat. -/
structure Dialect.Settled (d : Dialect) (t : Treatment) (v w : Json) : Prop where
  unvisited : (t.visits = false ∨ ∀ node, v ≠ .obj node) → w.shape = v.shape
  unclaimed : t.visits = true → ∀ node ns : Members, v = .obj node → w = .obj ns →
    ∀ key ∈ ns.keys, d.table.recognizes key = false
  labelled : t = .labelled → ∀ node ns : Members, v = .obj node → w = .obj ns →
    "oneOfLayout" ∈ ns.keys ∨
      "oneOfLayout" ∉ node.keys ∧ (discriminantTitles node).length ≠ 1

/-! ### Added members -/

theorem inert_toJson_layout (layout : Layout) : layout.toJson.shape.Inert := by
  cases layout with
  | comp name =>
    intro keys hkeys
    cases hkeys
  | node node =>
    obtain ⟨ms, hms, hsublist⟩ := node.exists_toJson_eq
    intro keys hkeys
    have hshape : node.toJson.shape = .obj keys := hkeys
    rw [hms] at hshape
    cases hshape
    exact hsublist.subset

theorem inert_toJson_oneOfLayout (layout : OneOfLayout) : layout.toJson.shape.Inert := by
  intro keys hkeys
  cases hkeys
  exact (by decide : ["label"] ⊆ LayoutNode.keys)

theorem get?_optionalMember_eq_some {α : Type} {key name : String} {write : α → Json}
    {v : Option α} {b : Json} (h : Members.get? (optionalMember key write v) name = some b) :
    key = name ∧ ∃ a, v = some a ∧ b = write a := by
  cases v with
  | none => cases h
  | some a =>
    by_cases hname : key = name
    · exact ⟨hname, a, rfl, by simpa [optionalMember, Members.get?, hname, eq_comm] using h⟩
    · simp [optionalMember, Members.get?, hname] at h

/-- A label is an optional member. -/
theorem attachLabel_eq (element : Members) :
    attachLabel element = element ++ optionalMember "oneOfLayout"
      (fun label => (OneOfLayout.mk label).toJson) (labelling element).label? := by
  unfold attachLabel
  cases (labelling element).label? with
  | none => exact (List.append_nil element).symm
  | some label => rfl

/-- No rule claims a keyword that holds schemas. -/
theorem Table.ofKeyword_of_recognizes {table : Table} {name : String}
    (h : table.recognizes name = true) : Role.ofKeyword name = .verbatim := by
  by_contra hrole
  have hkeywords : ∀ keyword ∈ traversalOrder, keyword ∉ builtin.recognizedKeys := by decide
  have hbuiltin := hkeywords name (Json.mem_traversalOrder hrole)
  rw [table.recognizes_eq_false_of_builtin hbuiltin] at h
  cases h

theorem ofKeyword_of_mem_addedKeys {name : String} (h : name ∈ addedKeys) :
    Role.ofKeyword name = .verbatim := by
  have hadded : ∀ key ∈ addedKeys, Role.ofKeyword key = .verbatim := by decide
  exact hadded name h

namespace Dialect

variable (d : Dialect)

/-! ### A migration -/

/-- A visited object loses the claimed keys, and those that it gains it did not have. -/
theorem exists_keys_treat {t : Treatment} (ht : t.visits = true) (ms : Members) :
    ∃ (ns : Members) (added : List String), d.treat t (.obj ms) = .obj ns ∧ added ⊆ addedKeys ∧
      (∀ key ∈ added, key ∉ ms.keys) ∧
      ns.keys = ms.keys.filter (fun key => !d.table.recognizes key) ++ added := by
  obtain ⟨label, htreat, hlabel⟩ := d.treat_obj_of_visits ht ms
  refine ⟨_, (d.layoutMember ms).keys ++ label.keys, htreat, ?_, ?_, ?_⟩
  · intro key hkey
    rcases List.mem_append.1 hkey with hkey | hkey
    · rcases d.keys_layoutMember ms with hnone | ⟨hlayout, -⟩
      · simp [hnone] at hkey
      · rw [hlayout, List.mem_singleton] at hkey
        simp [addedKeys, hkey]
    · rcases hlabel with hnone | ⟨hlabel, -⟩
      · simp [hnone] at hkey
      · rw [hlabel, List.mem_singleton] at hkey
        simp [addedKeys, hkey]
  · intro key hkey
    rcases List.mem_append.1 hkey with hkey | hkey
    · rcases d.keys_layoutMember ms with hnone | ⟨hlayout, hnew, -⟩
      · simp [hnone] at hkey
      · rw [hlayout, List.mem_singleton] at hkey
        exact hkey ▸ hnew
    · rcases hlabel with hnone | ⟨hlabel, hnew, -⟩
      · simp [hnone] at hkey
      · rw [hlabel, List.mem_singleton] at hkey
        exact hkey ▸ hnew
  · rw [Members.keys_append, Members.keys_append, keys_migrateMembers, List.append_assoc]

theorem retains_treat (t : Treatment) (v : Json) : d.table.Retains v (d.treat t v) := by
  rcases t.visited_or_not v with ⟨ht, ms, rfl⟩ | hnot
  · obtain ⟨ns, added, htreat, hadded, hnew, hkeys⟩ := d.exists_keys_treat ht ms
    rw [htreat]
    exact .obj (Or.inr ⟨added, hadded, hnew, hkeys⟩)
  · exact Table.retains_of_shape_eq (.refl v) (d.shape_treat_of_not_visits hnot)

/-- What a migration gives a value that was not there. -/
theorem inert_of_child?_treat {t : Treatment} {v b : Json} {name : String}
    (hnone : v.child? name = none) (hb : (d.treat t v).child? name = some b) :
    name ∈ addedKeys ∧ b.shape.Inert := by
  rcases t.visited_or_not v with ⟨ht, ms, rfl⟩ | hnot
  · have hkept : (d.migrateMembers ms).get? name = none := by
      rw [get?_migrateMembers, show Members.get? ms name = none from hnone]
      simp
    have hlayout (h : Members.get? (d.migrateMembers ms ++ d.layoutMember ms) name = some b) :
        name ∈ addedKeys ∧ b.shape.Inert := by
      rw [Members.get?_append, hkept, Option.none_or] at h
      obtain ⟨rfl, layout, -, rfl⟩ := get?_optionalMember_eq_some h
      exact ⟨by decide, inert_toJson_layout layout⟩
    rcases Treatment.of_visits_eq_true ht with rfl | rfl | rfl
    · exact hlayout hb
    · exact hlayout hb
    · have hlabelled : Members.get? (attachLabel (d.migrateMembers ms ++ d.layoutMember ms)) name
          = some b := hb
      rw [attachLabel_eq, Members.get?_append] at hlabelled
      rcases Option.or_eq_some_iff.1 hlabelled with h | ⟨-, h⟩
      · exact hlayout h
      · obtain ⟨rfl, label, -, rfl⟩ := get?_optionalMember_eq_some h
        exact ⟨by decide, inert_toJson_oneOfLayout _⟩
  · have hshape : (d.treat t v).shape = v.shape := d.shape_treat_of_not_visits hnot
    rw [Json.child?_eq_none_of_shape_eq hshape.symm hnone] at hb
    cases hb

/-- A migration reworks a value. -/
theorem reworks_treat (t : Treatment) (v : Json) : d.table.Reworks v (d.treat t v) := by
  constructor
  · intro place a b ha hb
    rcases d.at?_treat (t := t) ha with hkept | ⟨hlost, -⟩
    · rw [hb] at hkept
      cases hkept
      exact d.retains_treat _ a
    · rw [hb] at hlost
      cases hlost
  · intro place name b hplace hnone hb
    obtain ⟨a, ha⟩ := Option.ne_none_iff_exists'.1 hplace
    rw [Json.at?_append_of_eq_some ha, Json.at?_singleton] at hnone
    rcases d.at?_treat (t := t) ha with hkept | ⟨hlost, -⟩
    · rw [Json.at?_append_of_eq_some hkept, Json.at?_singleton] at hb
      exact d.inert_of_child?_treat hnone hb
    · rw [Json.at?_append, hlost] at hb
      cases hb

/-- A migration takes away no object that it visits: below a claimed key nothing is visited. -/
theorem survives_treat (t : Treatment) (v : Json) : t.Survives v (d.treat t v) := by
  intro below node hnode hvisits
  rcases d.at?_treat (t := t) hnode with hkept | ⟨-, above, name, ms, hprefix, hms, ht, hclaimed⟩
  · simp [hkept]
  · obtain ⟨rest, rfl⟩ := hprefix
    have hverbatim := Treatment.below_copied hms ht (Table.ofKeyword_of_recognizes hclaimed) rest
    rw [List.append_assoc, List.singleton_append, hverbatim] at hvisits
    cases hvisits

/-- Migrating an element keeps the titles of its discriminants. -/
theorem discriminantTitles_migrate {ms : Members} (hms : (Json.obj ms).WellFormed) :
    discriminantTitles (d.migrateMembers ms ++ d.layoutMember ms) = discriminantTitles ms := by
  have htreat : d.treat (.inRole .schema) (.obj ms)
      = .obj (d.migrateMembers ms ++ d.layoutMember ms) := rfl
  have hreworks := d.reworks_treat (.inRole .schema) (.obj ms)
  have hsurvives := d.survives_treat (.inRole .schema) (.obj ms)
  have hwell : (d.treat (.inRole .schema) (.obj ms)).WellFormed := hms.migrate d .schema
  rw [htreat] at hreworks hsurvives hwell
  exact hreworks.discriminantTitles_eq rfl hsurvives hms hwell

/-! ### Settled values -/

end Dialect

theorem label?_labelling_eq_some_iff {element : Members} {label : String} :
    (labelling element).label? = some label ↔
      element.has "oneOfLayout" = false ∧ discriminantTitles element = [label] := by
  unfold labelling
  cases element.has "oneOfLayout" with
  | true => simp [Labelling.label?]
  | false =>
    rcases discriminantTitles element with - | ⟨title, - | ⟨other, rest⟩⟩ <;>
      simp [Labelling.label?]

theorem label?_labelling_eq_none_iff (element : Members) :
    (labelling element).label? = none ↔
      "oneOfLayout" ∈ element.keys ∨ (discriminantTitles element).length ≠ 1 := by
  rw [← Members.has_iff_mem_keys, Ne, List.length_eq_one_iff, Option.eq_none_iff_forall_ne_some]
  simp only [Ne, label?_labelling_eq_some_iff]
  cases element.has "oneOfLayout" <;> simp

namespace Dialect

variable {d : Dialect}

/-- What has the shape of a treated value is settled. -/
theorem settled_of_shape_eq {t : Treatment} {v w : Json} (hv : v.WellFormed)
    (h : w.shape = (d.treat t v).shape) : d.Settled t v w where
  unvisited := by
    intro hnot
    rw [h]
    exact d.shape_treat_of_not_visits hnot
  unclaimed := by
    rintro ht node ns rfl rfl key hkey
    obtain ⟨out, added, htreat, hadded, -, hkeys⟩ := d.exists_keys_treat ht node
    rw [htreat, Json.shape, Json.shape, Shape.obj.injEq, hkeys] at h
    exact d.table.recognizes_eq_false_of_mem_visited hadded (h ▸ hkey)
  labelled := by
    rintro rfl node ns rfl rfl
    have hkeys : ns.keys
        = (attachLabel (d.migrateMembers node ++ d.layoutMember node)).keys := Shape.obj.inj h
    rw [attachLabel_eq, Members.keys_append] at hkeys
    cases hlabel : (labelling (d.migrateMembers node ++ d.layoutMember node)).label? with
    | some label =>
      left
      rw [hkeys, hlabel]
      exact List.mem_append_right _ List.mem_cons_self
    | none =>
      have hnode : "oneOfLayout" ∈ node.keys →
          "oneOfLayout" ∈ (d.migrateMembers node ++ d.layoutMember node).keys := by
        intro hmem
        have hclaimed : d.table.recognizes "oneOfLayout" = false :=
          d.table.recognizes_eq_false (by decide)
        rw [Members.keys_append, keys_migrateMembers]
        apply List.mem_append_left
        exact List.mem_filter.2 ⟨hmem, by simp [hclaimed]⟩
      by_cases hmem : "oneOfLayout" ∈ (d.migrateMembers node ++ d.layoutMember node).keys
      · left
        rw [hkeys]
        exact List.mem_append_left _ hmem
      · right
        refine ⟨fun h => hmem (hnode h), ?_⟩
        rw [← d.discriminantTitles_migrate hv]
        exact ((label?_labelling_eq_none_iff _).1 hlabel).resolve_left hmem

theorem layoutMember_eq_nil {ms : Members} (h : ∀ key ∈ ms.keys, d.table.recognizes key = false) :
    d.layoutMember ms = [] := by
  rcases d.keys_layoutMember ms with hnone | ⟨-, -, key, hkey, hclaimed⟩
  · exact List.map_eq_nil_iff.1 hnone
  · rw [h key hkey] at hclaimed
    cases hclaimed

theorem keys_migrate_of_unclaimed {ns : Members}
    (h : ∀ key ∈ ns.keys, d.table.recognizes key = false) :
    (d.migrateMembers ns ++ d.layoutMember ns).keys = ns.keys := by
  rw [layoutMember_eq_nil h, List.append_nil, keys_migrateMembers, List.filter_eq_self]
  intro key hkey
  simp [h key hkey]

/-- Treating a settled value again leaves its shape as it is. -/
theorem Settled.shape_treat {t : Treatment} {v w : Json} (h : d.Settled t v w)
    (hreworks : d.table.Reworks v w) (hsurvives : t.Survives v w) (hv : v.WellFormed)
    (hw : w.WellFormed) : (d.treat t w).shape = w.shape := by
  cases ht : t.visits with
  | false => exact d.shape_treat_of_not_visits (Or.inl ht)
  | true =>
    cases hreworks.root with
    | null | bool | num | str | arr => exact d.shape_treat_of_not_visits (Or.inr nofun)
    | @obj node ns _ =>
      have hkeys := keys_migrate_of_unclaimed (h.unclaimed ht node ns rfl rfl)
      rcases Treatment.of_visits_eq_true ht with rfl | rfl | rfl
      · exact congrArg Shape.obj hkeys
      · exact congrArg Shape.obj hkeys
      · -- no label is due: there is one, or the discriminants are those of the first time
        have hlabel : (labelling (d.migrateMembers ns ++ d.layoutMember ns)).label? = none := by
          rw [label?_labelling_eq_none_iff, hkeys, d.discriminantTitles_migrate hw,
            hreworks.discriminantTitles_eq rfl hsurvives hv hw]
          exact (h.labelled rfl node ns rfl rfl).imp_right And.right
        have htreat : d.treat .labelled (.obj ns)
            = .obj (attachLabel (d.migrateMembers ns ++ d.layoutMember ns)) := rfl
        rw [htreat, attachLabel_eq, hlabel]
        simp [optionalMember, Json.shape, hkeys]

/-! ### A walk -/

variable {document : Json} {m : Migration}

/-- Where the document has nothing no visit starts. -/
theorem deepest_append_of_none (h : (d.walk document).result = .ok m) {start below : Place}
    (hdeepest : m.Deepest start below) {name : String}
    (hnone : document.at? (start ++ below ++ [name]) = none) :
    m.Deepest start (below ++ [name]) := by
  apply hdeepest.append
  intro above habove hne hreached
  obtain ⟨-, target, htarget⟩ := reached_place h hreached
  rcases List.prefix_cons_iff.1 habove with rfl | ⟨rest, rfl, hrest⟩
  · exact absurd rfl hne
  · obtain rfl := List.prefix_nil.1 hrest
    rw [hnone] at htarget
    cases htarget

/-- A walk reworks a document. -/
theorem reworks_walk (h : (d.walk document).result = .ok m) :
    d.table.Reworks document m.schema := by
  constructor
  · intro place a b ha hb
    obtain ⟨start, -, target, below, -, -, -, hshape⟩ := exists_treated_of_walk h ha hb
    exact Table.retains_of_shape_eq (d.retains_treat _ a) hshape
  · intro place name b hplace hnone hb
    obtain ⟨start, below, rfl, hdeepest⟩ := m.exists_deepest place
    obtain ⟨target, htarget⟩ := exists_target_of_mem_starts h hdeepest.1
    have hdeepest' := deepest_append_of_none h hdeepest hnone
    rw [List.append_assoc] at hb
    have hslot : m.schema.at? start ≠ none := by
      apply Json.at?_ne_none_of_append
      rw [hb]
      exact Option.some_ne_none b
    have hshape := shapeAt_walk h hdeepest' htarget hslot
    rw [Json.shapeAt, hb, Option.map_some] at hshape
    obtain ⟨c, hc, hbc⟩ := Option.map_eq_some_iff.1 hshape.symm
    rw [Json.at?_append_of_eq_some htarget] at hplace
    rw [List.append_assoc, Json.at?_append_of_eq_some htarget] at hnone
    have hadded := (d.reworks_treat (.inRole .schema) target).gained below name c hplace hnone hc
    exact ⟨hadded.1, hbc ▸ hadded.2⟩

theorem settled_walk (h : (d.walk document).result = .ok m) (hdocument : document.WellFormed)
    {start below : Place} (hdeepest : m.Deepest start below) {target v w : Json}
    (htarget : document.at? start = some target) (hv : target.at? below = some v)
    (hw : m.schema.at? (start ++ below) = some w) :
    d.Settled ((Treatment.inRole .schema).below target below) v w :=
  settled_of_shape_eq ((hdocument.at htarget).at hv) (shape_eq_of_deepest h hdeepest htarget hv hw)

/-! ### The identity of the root -/

/-- What a walk makes of the root, with an identity. -/
theorem exists_keys_stamped_walk (h : (d.walk document).result = .ok m) {node ns : Members}
    (hnode : document = .obj node) {id : String} (hns : m.schema.stamped id = .obj ns) :
    ∃ added, added ⊆ addedKeys ∧ (∀ key ∈ added, key ∉ node.keys) ∧
      ns.keys = node.keys.filter (fun key => !d.table.recognizes key) ++ added := by
  subst hnode
  have hroot : m.Deepest [] [] := Migration.deepest_nil List.mem_cons_self
  have hshape := shape_eq_of_deepest h hroot rfl rfl rfl
  obtain ⟨out, added, htreat, hadded, hnew, hkeys⟩ :=
    d.exists_keys_treat (t := .inRole .schema) rfl node
  have hout : m.schema.shape = .obj out.keys := by
    rw [hshape]
    exact congrArg Json.shape htreat
  cases hschema : m.schema with
  | obj root =>
    rw [hschema] at hns hout
    have hkeysRoot : Members.keys root
        = node.keys.filter (fun key => !d.table.recognizes key) ++ added :=
      (Shape.obj.inj hout).trans hkeys
    rcases Json.stamped_obj id root with hsame | ⟨hid, hnone⟩
    · rw [hsame] at hns
      cases hns
      exact ⟨added, hadded, hnew, hkeysRoot⟩
    · rw [hid] at hns
      cases hns
      refine ⟨added ++ ["$id"], ?_, ?_, ?_⟩
      · apply List.append_subset.2
        exact ⟨hadded, by decide⟩
      · intro key hkey hmem
        rcases List.mem_append.1 hkey with hkey | hkey
        · exact hnew key hkey hmem
        · rw [List.mem_singleton] at hkey
          subst hkey
          have hclaimed : d.table.recognizes "$id" = false :=
            d.table.recognizes_eq_false (by decide)
          apply hnone
          rw [hkeysRoot]
          apply List.mem_append_left
          exact List.mem_filter.2 ⟨hmem, by simp [hclaimed]⟩
      · rw [Members.keys_append, hkeysRoot, List.append_assoc]
        rfl
  | null | bool | num | str | arr =>
    rw [hschema] at hout
    cases hout

/-- Below the root the identity changes nothing that the document has. -/
theorem at?_stamped_walk (h : (d.walk document).result = .ok m) (id : String) {name : String}
    {place : Place} (hplace : document.child? name ≠ none) :
    (m.schema.stamped id).at? (name :: place) = m.schema.at? (name :: place) := by
  rcases Json.at?_stamped_cons id m.schema name place with hsame | ⟨rfl, hnone⟩
  · exact hsame
  · have hclaimed : d.table.recognizes "$id" = false := d.table.recognizes_eq_false (by decide)
    exact absurd hnone (child?_walk_ne_none h hclaimed hplace)

theorem child?_ne_none_of_at?_cons {v : Json} {name : String} {place : Place}
    (h : v.at? (name :: place) ≠ none) : v.child? name ≠ none := by
  intro hnone
  apply h
  rw [Json.at?_cons, hnone]
  rfl

/-- What an identity gives a root is a text. -/
theorem inert_of_child?_stamped {v b : Json} {id : String} (hnone : v.child? "$id" = none)
    (hb : (v.stamped id).child? "$id" = some b) : b.shape.Inert := by
  cases v with
  | obj root =>
    rcases Json.stamped_obj id root with hsame | ⟨hnew, -⟩
    · rw [hsame, hnone] at hb
      cases hb
    · rw [hnew, Json.child?, Members.get?_append, show Members.get? root "$id" = none from hnone,
        Option.none_or] at hb
      cases hb
      intro keys hkeys
      cases hkeys
  | null | bool | num | str | arr => cases hb

/-- A walk reworks a document, and so does a run. -/
theorem reworks_stamped_walk (h : (d.walk document).result = .ok m) (id : String) :
    d.table.Reworks document (m.schema.stamped id) := by
  have hwalk := reworks_walk h
  constructor
  · intro place a b ha hb
    cases place with
    | nil =>
      cases ha
      cases hb
      have hroot := hwalk.root
      generalize hout : m.schema = out at hroot
      cases hroot with
      | @obj node root _ =>
        obtain ⟨ns, hns⟩ : ∃ ns, (Json.obj root).stamped id = .obj ns := ⟨_, rfl⟩
        rw [hns]
        exact .obj (Or.inr (exists_keys_stamped_walk h rfl (hout ▸ hns)))
      | null => exact .null
      | bool value => exact .bool value
      | num value => exact .num value
      | str value => exact .str value
      | arr hlength => exact .arr hlength
    | cons name place =>
      have hchild : document.child? name ≠ none := by
        apply child?_ne_none_of_at?_cons
        rw [ha]
        exact Option.some_ne_none a
      rw [at?_stamped_walk h id hchild] at hb
      exact hwalk.kept (name :: place) a b ha hb
  · intro place name b hplace hnone hb
    cases place with
    | nil =>
      rw [List.nil_append] at hnone hb
      rcases Json.at?_stamped_cons id m.schema name [] with hsame | ⟨rfl, hid⟩
      · rw [hsame] at hb
        exact hwalk.gained [] name b hplace hnone hb
      · rw [Json.at?_singleton] at hb
        exact ⟨by decide, inert_of_child?_stamped hid hb⟩
    | cons key place =>
      rw [List.cons_append, at?_stamped_walk h id (child?_ne_none_of_at?_cons hplace)] at hb
      exact hwalk.gained (key :: place) name b hplace hnone hb

theorem settled_stamped_walk (h : (d.walk document).result = .ok m)
    (hdocument : document.WellFormed) (id : String) {start below : Place}
    (hdeepest : m.Deepest start below) {target v w : Json}
    (htarget : document.at? start = some target) (hv : target.at? below = some v)
    (hw : (m.schema.stamped id).at? (start ++ below) = some w) :
    d.Settled ((Treatment.inRole .schema).below target below) v w := by
  have hplace : document.at? (start ++ below) = some v :=
    (Json.at?_append_of_eq_some htarget below).trans hv
  cases hcons : start ++ below with
  | nil =>
    obtain ⟨rfl, rfl⟩ := List.append_eq_nil_iff.1 hcons
    cases htarget
    cases hv
    cases hw
    have hsettled := settled_walk h hdocument hdeepest rfl rfl rfl
    refine ⟨?_, ?_, nofun⟩
    · intro hnot
      have hshape := hsettled.unvisited hnot
      have hdocumentNot : ∀ node, document ≠ .obj node := by
        rcases hnot with hvisits | hobj
        · cases hvisits
        · exact hobj
      have hschemaNot : ∀ node, m.schema ≠ .obj node := by
        intro node hnode
        rw [hnode] at hshape
        cases document with
        | obj root => exact hdocumentNot root rfl
        | null | bool | num | str | arr => cases hshape
      cases hschema : m.schema with
      | obj node => exact absurd hschema (hschemaNot node)
      | null | bool | num | str | arr =>
        rw [hschema] at hshape
        exact hshape
    · rintro - node ns hnode hns key hkey
      obtain ⟨added, hadded, -, hkeys⟩ := exists_keys_stamped_walk h hnode hns
      exact d.table.recognizes_eq_false_of_mem_visited hadded (hkeys ▸ hkey)
  | cons name place =>
    have hchild : document.child? name ≠ none := by
      apply child?_ne_none_of_at?_cons
      rw [← hcons, hplace]
      exact Option.some_ne_none v
    rw [hcons, at?_stamped_walk h id hchild, ← hcons] at hw
    exact settled_walk h hdocument hdeepest htarget hv hw

end Dialect

end Relayout
