/-
  Relayout/Proofs/Migration/Identity.lean
  =======================================
  **A document without extensions comes back as it is.**

  In a document without extensions no rule claims a key of any object, and no element of any
  `allOf` is due a label (`Json.Plain`).  A migration is the identity on it, so every definition
  that a walk puts back in place is the one that stands there, however often it is put back
  and whatever else is put back inside of it (`splice_eq_self`).  What remains that a run can do
  is to give the root an identity, and what remains that can go wrong is a reference
  (`Transformer.run_plain`).
-/
import Relayout.Proofs.Lint.Legacy
import Relayout.Proofs.Migration.Failure
import Relayout.Proofs.Migration.Remapping
import Relayout.Proofs.Migration.Settled

namespace Relayout

/-- No element is due a label: each has one, or has not exactly one discriminant. -/
def Json.Unlabelled : Json → Prop
  | .arr xs => ∀ x ∈ xs, ∀ element ∈ x.asMembers?,
    "oneOfLayout" ∈ element.keys ∨ (discriminantTitles element).length ≠ 1
  | _ => True

/-- No key of any object is claimed, and no element of any `allOf` is due a label. -/
structure Json.Plain (table : Table) (v : Json) : Prop where
  unclaimed : ∀ node ∈ v.objects, ∀ key ∈ node.keys, table.recognizes key = false
  unlabelled : ∀ node ∈ v.objects, ∀ m ∈ node, m.1 = "allOf" → m.2.Unlabelled

instance (v : Json) : Decidable v.Unlabelled :=
  match v with
  | .arr xs => inferInstanceAs (Decidable (∀ x ∈ xs, ∀ element ∈ x.asMembers?, _ ∨ _))
  | .null | .bool _ | .num _ | .str _ | .obj _ => isTrue trivial

instance (table : Table) (v : Json) : Decidable (v.Plain table) :=
  decidable_of_iff
    ((∀ node ∈ v.objects, ∀ key ∈ node.keys, table.recognizes key = false) ∧
      ∀ node ∈ v.objects, ∀ m ∈ node, m.1 = "allOf" → m.2.Unlabelled)
    ⟨fun h => ⟨h.1, h.2⟩, fun h => ⟨h.unclaimed, h.unlabelled⟩⟩

namespace Json.Plain

variable {table : Table}

theorem of_subset {v w : Json} (h : v.Plain table) (hsubset : w.objects ⊆ v.objects) :
    w.Plain table where
  unclaimed := fun node hnode => h.unclaimed node (hsubset hnode)
  unlabelled := fun node hnode => h.unlabelled node (hsubset hnode)

theorem member {ms : Members} (h : (obj ms).Plain table) {m : String × Json} (hm : m ∈ ms) :
    m.2.Plain table := by
  apply h.of_subset
  intro node hnode
  exact mem_objects_obj.2 (Or.inr ⟨m, hm, hnode⟩)

theorem element {xs : List Json} (h : (arr xs).Plain table) {x : Json} (hx : x ∈ xs) :
    x.Plain table := by
  apply h.of_subset
  intro node hnode
  exact mem_objects_arr.2 ⟨x, hx, hnode⟩

end Json.Plain

namespace Dialect

variable {d : Dialect}

/-! ### Migrating -/

theorem migrateMembers_eq_self {ms : Members}
    (hclaimed : ∀ key ∈ ms.keys, d.table.recognizes key = false)
    (hms : ∀ m ∈ ms, d.migrate (Role.ofKeyword m.1) m.2 = m.2) : d.migrateMembers ms = ms := by
  induction ms with
  | nil => rfl
  | cons m ms ih =>
    obtain ⟨k, v⟩ := m
    obtain ⟨hkey, hkeys⟩ := List.forall_mem_cons.1 hclaimed
    obtain ⟨hv, hrest⟩ := List.forall_mem_cons.1 hms
    simp only at hkey hv
    simp [migrateMembers, hkey, hv, ih hkeys hrest]

theorem migrateEntries_eq_self {ms : Members} (hms : ∀ m ∈ ms, d.migrate .schema m.2 = m.2) :
    d.migrateEntries ms = ms := by
  induction ms with
  | nil => rfl
  | cons m ms ih =>
    obtain ⟨hv, hrest⟩ := List.forall_mem_cons.1 hms
    rw [migrateEntries, hv, ih hrest]

theorem migrateElements_eq_self {xs : List Json} (hxs : ∀ x ∈ xs, d.migrate .schema x = x) :
    d.migrateElements xs = xs := by
  rw [migrateElements_eq_map, List.map_congr_left hxs, List.map_id']

theorem map_withLabel_eq_self {xs : List Json} (h : (Json.arr xs).Unlabelled) :
    xs.map Json.withLabel = xs := by
  have helement : ∀ x ∈ xs, x.withLabel = x := by
    intro x hx
    cases x with
    | obj element =>
      have hnone := (label?_labelling_eq_none_iff element).2 (h _ hx element rfl)
      rw [Json.withLabel, attachLabel_eq, hnone]
      simp [optionalMember]
    | null | bool | num | str | arr => rfl
  rw [List.map_congr_left helement, List.map_id']

/-- A migration changes nothing in a value without extensions. -/
theorem migrate_eq_self {v : Json} (h : v.Plain d.table) {role : Role}
    (hlabels : role = .labelledList → v.Unlabelled) : d.migrate role v = v := by
  induction v using Json.induction_on generalizing role with
  | null | bool | num | str => cases role <;> rfl
  | arr xs ih =>
    have helements : d.migrateElements xs = xs := by
      apply migrateElements_eq_self
      intro x hx
      exact ih x hx (h.element hx) nofun
    cases role with
    | schema | schemaMap | verbatim => rfl
    | schemaList | schemaOrList => rw [migrate, helements]
    | labelledList => rw [migrate, helements, map_withLabel_eq_self (hlabels rfl)]
  | obj ms ih =>
    have hself : ms ∈ (Json.obj ms).objects := Json.mem_objects_obj.2 (Or.inl rfl)
    have hclaimed := h.unclaimed ms hself
    have hmembers : d.migrateMembers ms = ms := by
      apply migrateMembers_eq_self hclaimed
      intro m hm
      apply ih m hm (h.member hm)
      intro hrole
      have hkey := Treatment.ofKeyword_eq_labelledList hrole
      exact h.unlabelled ms hself m hm hkey
    cases role with
    | schema | schemaOrList => rw [migrate, hmembers, layoutMember_eq_nil hclaimed, List.append_nil]
    | schemaMap =>
      rw [migrate, migrateEntries_eq_self]
      intro m hm
      exact ih m hm (h.member hm) nofun
    | schemaList | labelledList | verbatim => rfl

theorem migrate_schema_eq_self {v : Json} (h : v.Plain d.table) : d.migrate .schema v = v := by
  apply migrate_eq_self h
  intro hrole
  cases hrole

end Dialect

/-! ### Putting back what stands there -/

theorem Members.insert_eq_self {ms : Members} {key : String} {v : Json}
    (h : ms.get? key = some v) : ms.insert key v = ms := by
  induction ms with
  | nil => cases h
  | cons m ms ih =>
    obtain ⟨k, w⟩ := m
    by_cases hk : k = key
    · rw [get?, if_pos hk] at h
      cases h
      rw [insert, if_pos hk]
    · rw [get?, if_neg hk] at h
      rw [insert, if_neg hk, ih h]

namespace Json

theorem setStep_eq_self {v child : Json} {segment : String}
    (h : v.child? (Pointer.unescape segment) = some child) : v.setStep segment child = v := by
  cases v with
  | obj ms => exact congrArg obj (Members.insert_eq_self h)
  | arr xs =>
    obtain ⟨i, hi, hx⟩ := Option.bind_eq_some_iff.1 h
    simp only [setStep, hi]
    obtain ⟨hlt, rfl⟩ := List.getElem?_eq_some_iff.1 hx
    rw [List.set_getElem_self]
  | null | bool | num | str => cases h

theorem replaceFrom?_eq_self {v w : Json} {segments : List String}
    (h : v.at? (segments.map Pointer.unescape) = some w) :
    replaceFrom? w segments v = some v := by
  induction segments generalizing v with
  | nil => exact h.symm
  | cons s ss ih =>
    obtain ⟨child, hchild, hat⟩ := Option.bind_eq_some_iff.1 h
    simp [replaceFrom?, step?_eq_child?, hchild, ih hat, setStep_eq_self hchild]

end Json

/-- Putting back what stands there changes nothing. -/
theorem splice_eq_self {arena : List (Pointer × Json)} {document : Json}
    (h : ∀ entry ∈ arena, document.at? entry.1.place = some entry.2) :
    (splice arena document).2 = document := by
  induction arena with
  | nil => rfl
  | cons entry rest ih =>
    obtain ⟨p, v⟩ := entry
    obtain ⟨hentry, hrest⟩ := List.forall_mem_cons.1 h
    have hreplace : document.replace? p v = some document := Json.replaceFrom?_eq_self hentry
    simp only [splice, hreplace]
    exact ih hrest

/-! ### Visited objects are objects of the document -/

namespace Json

theorem exists_member_of_mem_visitsMembers {place : Place} {ms : Members} {e : String × List Visit}
    (h : e ∈ visitsMembers place ms) :
    ∃ m ∈ ms, e.2 = m.2.visits (Role.ofKeyword m.1) (place ++ [m.1]) := by
  induction ms with
  | nil => cases h
  | cons m ms ih =>
    obtain ⟨k, v⟩ := m
    rw [visitsMembers] at h
    rcases List.mem_cons.1 h with rfl | hrest
    · exact ⟨(k, v), List.mem_cons_self, rfl⟩
    · obtain ⟨n, hn, hvisits⟩ := ih hrest
      exact ⟨n, List.mem_cons_of_mem _ hn, hvisits⟩

theorem exists_element_of_mem_visitsElements {place : Place} {i : Nat} {xs : List Json}
    {visit : Visit} (h : visit ∈ visitsElements place i xs) :
    ∃ x ∈ xs, ∃ below, visit ∈ x.visits .schema below := by
  induction xs generalizing i with
  | nil => cases h
  | cons x xs ih =>
    rcases List.mem_append.1 h with hhere | hrest
    · exact ⟨x, List.mem_cons_self, _, hhere⟩
    · obtain ⟨y, hy, hvisit⟩ := ih hrest
      exact ⟨y, List.mem_cons_of_mem _ hy, hvisit⟩

theorem mem_objects_of_visits {v : Json} {role : Role} {place : Place} {visit : Visit}
    (h : visit ∈ v.visits role place) : visit.node ∈ v.objects := by
  induction v using induction_on generalizing role place with
  | null | bool | num | str => cases role <;> cases h
  | arr xs ih =>
    have helements (h : visit ∈ visitsElements place 0 xs) : visit.node ∈ (arr xs).objects := by
      obtain ⟨x, hx, below, hvisit⟩ := exists_element_of_mem_visitsElements h
      exact mem_objects_arr.2 ⟨x, hx, ih x hx hvisit⟩
    cases role with
    | schemaList | schemaOrList | labelledList => exact helements h
    | schema | schemaMap | verbatim => cases h
  | obj ms ih =>
    rw [mem_objects_obj]
    have hschema (h : visit ∈ Dialect.inTraversalOrder (visitsMembers place ms) ++ [⟨place, ms⟩]) :
        visit.node = ms ∨ ∃ m ∈ ms, visit.node ∈ m.2.objects := by
      rcases List.mem_append.1 h with hbelow | hself
      · obtain ⟨e, he, hvisit⟩ := Dialect.mem_inTraversalOrder hbelow
        obtain ⟨m, hm, heq⟩ := exists_member_of_mem_visitsMembers he
        exact Or.inr ⟨m, hm, ih m hm (heq ▸ hvisit)⟩
      · exact Or.inl (congrArg Visit.node (List.mem_singleton.1 hself))
    cases role with
    | schema => exact hschema h
    | schemaOrList => exact hschema h
    | schemaMap =>
      have hentries : visit ∈ visitsEntries place ms := h
      rw [visitsEntries_eq_flatMap] at hentries
      obtain ⟨m, hm, hvisit⟩ := List.mem_flatMap.1 hentries
      exact Or.inr ⟨m, hm, ih m hm hvisit⟩
    | schemaList | labelledList | verbatim => cases h

theorem Visited.mem_objects {document : Json} {visit : Visit} (h : document.Visited visit) :
    visit.node ∈ document.objects := by
  rcases h with hroot | ⟨ref, p, target, -, -, hat, hmem⟩
  · exact mem_objects_of_visits hroot
  · exact objects_subset_of_at? hat (mem_objects_of_visits hmem)

end Json

/-! ### Walks and runs -/

/-- An identity is given exactly to a root that has none. -/
theorem Json.stamped_cases (id : String) (v : Json) :
    (∀ root, v = .obj root → "$id" ∉ Members.keys root →
      v.stamped id = .obj (root ++ [("$id", .str id)])) ∧
    ((∀ root, v = .obj root → "$id" ∈ Members.keys root) → v.stamped id = v) := by
  cases v with
  | obj root =>
    constructor
    · rintro _ ⟨⟩ hnone
      rw [← Members.has_iff_mem_keys, Bool.not_eq_true] at hnone
      simp [stamped, stampRootId, hnone]
    · intro h
      have hid := (Members.has_iff_mem_keys root "$id").2 (h root rfl)
      simp [stamped, stampRootId, hid]
  | null | bool | num | str | arr =>
    constructor
    · intro root hroot
      cases hroot
    · intro _
      rfl

namespace Dialect

variable {d : Dialect} {document : Json} (h : document.Plain d.table)

include h

/-- A walk gives back a document without extensions. -/
theorem schema_walk_eq_self {m : Migration} (hwalk : (d.walk document).result = .ok m) :
    m.schema = document := by
  obtain ⟨arena, hschema, -, hkept⟩ := exists_arena_of_walk hwalk
  rw [hschema, migrate_schema_eq_self h]
  apply splice_eq_self
  intro entry hentry
  obtain ⟨ref, -, -, -, target, htarget, hmigrated⟩ := hkept entry (mem_byDepth.1 hentry)
  have htargetPlain : target.Plain d.table := h.of_subset (Json.objects_subset_of_at? htarget)
  rw [htarget, hmigrated, migrate_schema_eq_self htargetPlain]

/-- Only a reference can make a walk of it fail. -/
theorem exists_unresolvedRef_of_walk {e : MigrationError}
    (hwalk : (d.walk document).result = .error e) : ∃ ref place, e = .unresolvedRef ref place := by
  obtain ⟨visit, hvisit, hrejects⟩ := exists_rejected_of_walk hwalk
  cases hrejects with
  | @mapping path _ hresult =>
    obtain ⟨mapped, hmapped⟩ :=
      exists_mapped_of_unclaimed (h.unclaimed visit.node hvisit.mem_objects) path
    rw [hmapped] at hresult
    cases hresult
  | notText place _ _ => exact ⟨_, place, rfl⟩
  | dangling place _ _ => exact ⟨_, place, rfl⟩

end Dialect

namespace Transformer

/-- **A run gives back a document without extensions, with an identity if its root had none**,
    unless a reference in it leads nowhere.  For the built-in rules, no key is claimed exactly if a
    lint of the document warns of no legacy extension. -/
theorem run_plain (document : Json) :
    (∀ t : Transformer, t.validator = none → document.Plain t.dialect.table →
      (∃ ref place, (t.run document).result = .error (.unresolvedRef ref place)) ∨
      ∃ m, (t.run document).result = .ok m ∧
        (∀ root, document = .obj root → "$id" ∉ Members.keys root →
          m.schema = .obj (root ++ [("$id", .str t.rootId)])) ∧
        ((∀ root, document = .obj root → "$id" ∈ Members.keys root) → m.schema = document)) ∧
    ((∀ node ∈ document.objects, ∀ key ∈ node.keys, Table.builtin.recognizes key = false) ↔
      ∀ warning ∈ document.lint.warnings, warning.1.code ≠ "LEGACY_EXTENSION") := by
  refine ⟨fun t hvalidator hplain => ?_, document.no_legacy_iff.symm⟩
  cases hresult : (t.run document).result with
  | error e =>
    left
    rcases rejected_or_walk_of_run hresult with ⟨validate, -, hsome, -⟩ | hwalk
    · rw [hvalidator] at hsome
      cases hsome
    · obtain ⟨ref, place, rfl⟩ := Dialect.exists_unresolvedRef_of_walk hplain hwalk
      exact ⟨ref, place, rfl⟩
  | ok m =>
    right
    obtain ⟨schema, hwalk, hstamped⟩ := exists_walk_of_run hresult
    obtain rfl : schema = document := Dialect.schema_walk_eq_self hplain hwalk
    exact ⟨m, rfl, hstamped ▸ Json.stamped_cases t.rootId schema⟩

/-- A document whose references run in a circle, lead to a container and overlap. -/
def plainDocument : Json :=
  .obj [("properties", .obj [("x", .obj [("$ref", .str "#/definitions/a")]),
      ("y", .obj [("$ref", .str "#/definitions/a/properties")])]),
    ("definitions", .obj [("a", .obj [("allOf", .arr [.obj [("oneOf", .arr [.obj [("properties",
      .obj [("kind", .obj [("const", .str "circle")])])]])]]),
      ("properties", .obj [("next", .obj [("$ref", .str "#/definitions/a")])])])])]

theorem run_plainDocument :
    plainDocument.Plain Table.builtin ∧
      ((∃ ref place, (run ⟨⟨Table.builtin, {}⟩, defaultRootId, none⟩ plainDocument).result
          = .error (.unresolvedRef ref place)) ∨
        ∃ m, (run ⟨⟨Table.builtin, {}⟩, defaultRootId, none⟩ plainDocument).result = .ok m ∧
          (∀ root, plainDocument = .obj root → "$id" ∉ Members.keys root →
            m.schema = .obj (root ++ [("$id", .str defaultRootId)])) ∧
          ((∀ root, plainDocument = .obj root → "$id" ∈ Members.keys root) →
            m.schema = plainDocument)) := by
  have hplain : plainDocument.Plain Table.builtin := by decide +kernel
  exact ⟨hplain, (run_plain plainDocument).1 ⟨⟨Table.builtin, {}⟩, defaultRootId, none⟩ rfl hplain⟩

end Transformer

end Relayout
