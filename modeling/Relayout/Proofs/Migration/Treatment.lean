/-
  Relayout/Proofs/Migration/Treatment.lean
  ========================================
  **What a migration makes of each place.**

  Migrating a value treats each place below it in one way, which only the keywords on the
  way there decide: the place holds a schema, a container of schemas, an element of an
  `allOf`, or data.  `Treatment.below` computes it.  The value found at a place after the
  migration is the value found there before, so treated (`at?_treat`); it is missing only
  below a member that the table claims.  What one object keeps, loses and gains can be read
  off its shape (`shape_treat_of_visits`).

  Definitions are data wherever the walk is (`below_eq_verbatim`).
-/
import Mathlib.Data.List.Induction
import Relayout.Migration.Structural
import Relayout.Proofs.Extension.Satisfied
import Relayout.Proofs.Migration.Definitions

namespace Relayout

/-- How a value is treated: in a role, or as an element of an `allOf`, which is a schema that
    may be given a label. -/
inductive Treatment where
  | inRole (role : Role)
  | labelled
deriving DecidableEq, Repr

namespace Treatment

/-- How the child with a name is treated. -/
def child : Treatment → Json → String → Treatment
  | .inRole .schema, .obj _, name => .inRole (Role.ofKeyword name)
  | .inRole .schemaOrList, .obj _, name => .inRole (Role.ofKeyword name)
  | .labelled, .obj _, name => .inRole (Role.ofKeyword name)
  | .inRole .schemaMap, .obj _, _ => .inRole .schema
  | .inRole .schemaList, .arr _, _ => .inRole .schema
  | .inRole .schemaOrList, .arr _, _ => .inRole .schema
  | .inRole .labelledList, .arr _, _ => .labelled
  | _, _, _ => .inRole .verbatim

/-- How what is at a place below a value is treated. -/
def below : Treatment → Json → Place → Treatment
  | t, _, [] => t
  | t, v, name :: place =>
    match v.child? name with
    | some w => below (t.child v name) w place
    | none => .inRole .verbatim

/-- Whether an object so treated is visited as a schema. -/
def visits : Treatment → Bool
  | .inRole .schema | .inRole .schemaOrList | .labelled => true
  | _ => false

end Treatment

namespace Treatment

theorem of_visits_eq_true {t : Treatment} (h : t.visits = true) :
    t = .inRole .schema ∨ t = .inRole .schemaOrList ∨ t = .labelled := by
  cases t with
  | inRole role => cases role <;> simp [visits] at h ⊢
  | labelled => simp

theorem of_visits_eq_false {t : Treatment} (h : t.visits = false) :
    t = .inRole .schemaMap ∨ t = .inRole .schemaList ∨ t = .inRole .labelledList ∨
      t = .inRole .verbatim := by
  cases t with
  | inRole role => cases role <;> simp [visits] at h ⊢
  | labelled => cases h

/-- A value is an object that is visited, or else it keeps its shape. -/
theorem visited_or_not (t : Treatment) (v : Json) :
    (t.visits = true ∧ ∃ ms, v = .obj ms) ∨ (t.visits = false ∨ ∀ ms, v ≠ .obj ms) := by
  cases t.visits with
  | false => exact Or.inr (Or.inl rfl)
  | true =>
    cases v with
    | obj ms => exact Or.inl ⟨rfl, ms, rfl⟩
    | null | bool | num | str | arr => exact Or.inr (Or.inr nofun)

/-- The members of a visited object are treated in the roles of their keywords. -/
theorem child_of_visits {t : Treatment} (ht : t.visits = true) (ms : Members) (name : String) :
    t.child (.obj ms) name = .inRole (Role.ofKeyword name) := by
  rcases of_visits_eq_true ht with rfl | rfl | rfl <;> rfl

end Treatment

/-- Treat a value. -/
def Dialect.treat (d : Dialect) : Treatment → Json → Json
  | .inRole role, v => d.migrate role v
  | .labelled, v => (d.migrate .schema v).withLabel

/-! ### Members that stay -/

/-- The keys of the members that a run may add to an object, in the order in which it does. -/
def addedKeys : List String := ["layout", "oneOfLayout", "$id"]

/-- What no built-in rule claims no table claims. -/
theorem Table.recognizes_eq_false_of_builtin (table : Table) {key : String}
    (h : key ∉ builtin.recognizedKeys) : table.recognizes key = false := by
  simp only [recognizes, List.any_eq_false]
  intro rule _ hkey
  apply h
  have hrule : rule ∈ builtin.rules := by cases rule <;> decide
  exact List.mem_flatMap.2 ⟨rule, hrule, by simpa using hkey⟩

/-- No rule claims a key that a run adds. -/
theorem Table.recognizes_eq_false (table : Table) {key : String} (h : key ∈ addedKeys) :
    table.recognizes key = false := by
  have hadded : ∀ key ∈ addedKeys, key ∉ builtin.recognizedKeys := by decide
  exact table.recognizes_eq_false_of_builtin (hadded key h)

namespace Dialect

variable (d : Dialect)

@[simp] theorem migrate_verbatim (v : Json) : d.migrate .verbatim v = v := by
  cases v <;> simp [migrate]

theorem get?_migrateMembers (ms : Members) (key : String) :
    (d.migrateMembers ms).get? key =
      if d.table.recognizes key then none
      else (ms.get? key).map (d.migrate (Role.ofKeyword key)) := by
  induction ms with
  | nil => simp [migrateMembers, Members.get?]
  | cons m ms ih =>
    obtain ⟨k, v⟩ := m
    by_cases hk : k = key
    · subst hk
      cases hrec : d.table.recognizes k with
      | true => simpa [migrateMembers, hrec] using ih
      | false => simp [migrateMembers, hrec, Members.get?]
    · cases hrec : d.table.recognizes k with
      | true => simpa [migrateMembers, hrec, Members.get?, hk] using ih
      | false => simpa [migrateMembers, hrec, Members.get?, hk] using ih

theorem keys_migrateMembers (ms : Members) :
    (d.migrateMembers ms).keys = ms.keys.filter (fun key => !d.table.recognizes key) := by
  induction ms with
  | nil => rfl
  | cons m ms ih =>
    obtain ⟨k, v⟩ := m
    simp only [Members.keys] at ih
    cases hrec : d.table.recognizes k <;> simp [migrateMembers, Members.keys, hrec, ih]

theorem get?_migrateEntries (ms : Members) (key : String) :
    (d.migrateEntries ms).get? key = (ms.get? key).map (d.migrate .schema) := by
  induction ms with
  | nil => rfl
  | cons m ms ih =>
    obtain ⟨k, v⟩ := m
    by_cases hk : k = key <;> simp [migrateEntries, Members.get?, hk, ih]

theorem keys_migrateEntries (ms : Members) : (d.migrateEntries ms).keys = ms.keys := by
  induction ms with
  | nil => rfl
  | cons m ms ih =>
    simp only [Members.keys] at ih
    simp [migrateEntries, Members.keys, ih]

theorem migrateElements_eq_map (xs : List Json) :
    d.migrateElements xs = xs.map (d.migrate .schema) := by
  induction xs with
  | nil => rfl
  | cons x xs ih => simp [migrateElements, ih]

end Dialect

/-! ### Members that are added -/

/-- A layout comes from a claimed key of a node that has no layout yet. -/
theorem Table.of_layout?_eq_some {table : Table} {s : Site} {layout : Layout}
    (h : table.layout? s = some layout) :
    (∃ key ∈ s.node.keys, table.recognizes key = true) ∧ "layout" ∉ s.node.keys := by
  rw [Table.layout?_eq] at h
  split at h
  · cases h
  · rename_i hnot
    obtain ⟨hconsumed, hlayout⟩ := not_or.1 hnot
    obtain ⟨key, hkey⟩ := List.exists_mem_of_ne_nil _ hconsumed
    rw [Members.has_iff_mem_keys] at hlayout
    exact ⟨⟨key, List.mem_filter.1 hkey⟩, hlayout⟩

/-- The member that a schema gains for the layout of its extensions. -/
theorem Dialect.keys_layoutMember (d : Dialect) (ms : Members) :
    (d.layoutMember ms).keys = [] ∨
      (d.layoutMember ms).keys = ["layout"] ∧ "layout" ∉ ms.keys ∧
        ∃ key ∈ ms.keys, d.table.recognizes key = true := by
  unfold Dialect.layoutMember
  cases hlayout : d.table.layout? ⟨"", ms, d.detector⟩ with
  | none => exact Or.inl rfl
  | some layout =>
    obtain ⟨hkey, hnew⟩ := Table.of_layout?_eq_some hlayout
    exact Or.inr ⟨rfl, hnew, hkey⟩

/-- The member that an element gains for the label of its choice. -/
theorem exists_attachLabel_eq_append (element : Members) :
    ∃ label : Members, attachLabel element = element ++ label ∧
      (label.keys = [] ∨ label.keys = ["oneOfLayout"] ∧ "oneOfLayout" ∉ element.keys) := by
  unfold attachLabel
  cases hlabel : (labelling element).label? with
  | none => exact ⟨[], by simp, Or.inl rfl⟩
  | some label =>
    refine ⟨_, rfl, Or.inr ⟨rfl, ?_⟩⟩
    intro hmem
    rw [← Members.has_iff_mem_keys] at hmem
    simp [labelling, hmem, Labelling.label?] at hlabel

namespace Dialect

variable (d : Dialect)

/-- A visited object keeps its members without the claimed ones, and gains a layout and a
    label at most. -/
theorem treat_obj_of_visits {t : Treatment} (ht : t.visits = true) (ms : Members) :
    ∃ label : Members,
      d.treat t (.obj ms) = .obj (d.migrateMembers ms ++ d.layoutMember ms ++ label) ∧
      (label.keys = [] ∨
        label.keys = ["oneOfLayout"] ∧ "oneOfLayout" ∉ ms.keys ∧ t = .labelled) := by
  rcases Treatment.of_visits_eq_true ht with rfl | rfl | rfl
  · exact ⟨[], by simp [treat, migrate], Or.inl rfl⟩
  · exact ⟨[], by simp [treat, migrate], Or.inl rfl⟩
  · obtain ⟨label, happend, hkeys⟩ :=
      exists_attachLabel_eq_append (d.migrateMembers ms ++ d.layoutMember ms)
    refine ⟨label, by simp [treat, migrate, Json.withLabel, happend], ?_⟩
    rcases hkeys with hnone | ⟨hlabel, hnew⟩
    · exact Or.inl hnone
    · have hclaimed : d.table.recognizes "oneOfLayout" = false :=
        d.table.recognizes_eq_false (by decide)
      refine Or.inr ⟨hlabel, fun hmem => hnew ?_, rfl⟩
      rw [Members.keys_append, keys_migrateMembers, List.mem_append, List.mem_filter]
      exact Or.inl ⟨hmem, by simp [hclaimed]⟩

/-- What is not visited as a schema keeps its shape. -/
theorem shape_treat_of_not_visits {t : Treatment} {v : Json}
    (h : t.visits = false ∨ ∀ ms, v ≠ .obj ms) : (d.treat t v).shape = v.shape := by
  cases v with
  | obj ms =>
    rcases h with ht | hobj
    · rcases Treatment.of_visits_eq_false ht with rfl | rfl | rfl | rfl
      · simp [treat, migrate, Json.shape, keys_migrateEntries]
      · rfl
      · rfl
      · rfl
    · exact absurd rfl (hobj ms)
  | arr xs =>
    cases t with
    | inRole role =>
      cases role with
      | schema | schemaMap | verbatim => rfl
      | schemaList | schemaOrList | labelledList =>
        simp [treat, migrate, Json.shape, migrateElements_eq_map]
    | labelled => rfl
  | null | bool | num | str => cases t with
    | inRole role => cases role <;> rfl
    | labelled => rfl

/-! ### Places after a migration -/

theorem get?_eq_none_of_keys_subset {added : Members} (hadded : added.keys ⊆ addedKeys)
    {name : String} (hclaimed : d.table.recognizes name = true) : added.get? name = none := by
  rw [Members.get?_eq_none_iff]
  intro hmem
  rw [d.table.recognizes_eq_false (hadded hmem)] at hclaimed
  cases hclaimed

/-- A member of a visited object is gone if the table claims it, and otherwise migrated in the
    role of its keyword. -/
theorem child?_treat_of_visits {t : Treatment} (ht : t.visits = true) {ms : Members}
    {name : String} {w : Json} (h : ms.get? name = some w) :
    (d.treat t (.obj ms)).child? name =
      if d.table.recognizes name then none else some (d.migrate (Role.ofKeyword name) w) := by
  obtain ⟨label, htreat, hlabel⟩ := d.treat_obj_of_visits ht ms
  rw [htreat, Json.child?, Members.get?_append, Members.get?_append, get?_migrateMembers, h]
  cases hclaimed : d.table.recognizes name with
  | false => rfl
  | true =>
    have hlayoutKeys : (d.layoutMember ms).keys ⊆ addedKeys := by
      rcases d.keys_layoutMember ms with hnone | ⟨hlayout, -⟩
      · simp [hnone]
      · simp [hlayout, addedKeys]
    have hlabelKeys : label.keys ⊆ addedKeys := by
      rcases hlabel with hnone | ⟨hlabel, -⟩
      · simp [hnone]
      · simp [hlabel, addedKeys]
    rw [d.get?_eq_none_of_keys_subset hlayoutKeys hclaimed,
      d.get?_eq_none_of_keys_subset hlabelKeys hclaimed]
    rfl

/-- A child is treated as the keywords say, unless it is a member that the table claims. -/
theorem child?_treat (t : Treatment) {v w : Json} {name : String} (h : v.child? name = some w) :
    (d.treat t v).child? name = some (d.treat (t.child v name) w) ∨
      (d.treat t v).child? name = none ∧ t.visits = true ∧ (∃ ms, v = .obj ms) ∧
        d.table.recognizes name = true := by
  cases v with
  | null | bool | num | str => cases h
  | arr xs =>
    simp only [Json.child?, Option.bind_eq_some_iff] at h
    obtain ⟨i, hi, hx⟩ := h
    left
    cases t with
    | inRole role =>
      cases role with
      | schema | schemaMap | verbatim =>
        simpa [treat, migrate, Json.child?, hi, Treatment.child] using hx
      | schemaList | schemaOrList | labelledList =>
        simp [treat, migrate, Json.child?, hi, Treatment.child, migrateElements_eq_map, hx]
    | labelled => simpa [treat, migrate, Json.withLabel, Json.child?, hi, Treatment.child] using hx
  | obj ms =>
    have hget : Members.get? ms name = some w := h
    cases ht : t.visits with
    | true =>
      rw [Treatment.child_of_visits ht, d.child?_treat_of_visits ht hget]
      cases hclaimed : d.table.recognizes name with
      | false => exact Or.inl rfl
      | true => exact Or.inr ⟨rfl, rfl, ⟨ms, rfl⟩, rfl⟩
    | false =>
      left
      rcases Treatment.of_visits_eq_false ht with rfl | rfl | rfl | rfl
      · simp [treat, migrate, Json.child?, Treatment.child, get?_migrateEntries, hget]
      · simpa [treat, migrate, Treatment.child] using h
      · simpa [treat, migrate, Treatment.child] using h
      · simpa [treat, migrate, Treatment.child] using h

/-- The value at a place is treated as the keywords on the way there say, or a member that
    the table claims was on the way. -/
theorem at?_treat {t : Treatment} {v w : Json} {place : Place} (h : v.at? place = some w) :
    (d.treat t v).at? place = some (d.treat (t.below v place) w) ∨
      (d.treat t v).at? place = none ∧
        ∃ above name ms, above ++ [name] <+: place ∧ v.at? above = some (.obj ms) ∧
          (t.below v above).visits = true ∧ d.table.recognizes name = true := by
  induction place generalizing t v with
  | nil =>
    cases h
    exact Or.inl rfl
  | cons name place ih =>
    rw [Json.at?_cons, Option.bind_eq_some_iff] at h
    obtain ⟨child, hchild, hat⟩ := h
    simp only [Json.at?_cons, Treatment.below, hchild]
    rcases d.child?_treat t hchild with hsome | ⟨hnone, ht, ⟨ms, rfl⟩, hrec⟩
    · rw [hsome, Option.bind_some]
      rcases ih (t := t.child v name) hat with hkept | ⟨hlost, above, key, ms, hp, hms, hvis, hk⟩
      · exact Or.inl hkept
      · refine Or.inr ⟨hlost, name :: above, key, ms, ?_, ?_, ?_, hk⟩
        · simpa using hp
        · simpa [Json.at?_cons, hchild] using hms
        · simpa [Treatment.below, hchild] using hvis
    · rw [hnone]
      exact Or.inr ⟨rfl, [], name, ms, by simp, rfl, ht, hrec⟩

end Dialect

/-! ### Elements that are labelled -/

namespace Treatment

theorem below_append (t : Treatment) {v w : Json} {place : Place} (h : v.at? place = some w)
    (rest : Place) : t.below v (place ++ rest) = (t.below v place).below w rest := by
  induction place generalizing t v with
  | nil =>
    cases h
    rfl
  | cons name place ih =>
    rw [Json.at?_cons, Option.bind_eq_some_iff] at h
    obtain ⟨child, hchild, hat⟩ := h
    simp only [List.cons_append, below, hchild]
    exact ih _ hat

theorem below_singleton (t : Treatment) {v w : Json} {name : String}
    (h : v.child? name = some w) : t.below v [name] = t.child v name := by
  simp only [below, h]

theorem child_eq_labelled {t : Treatment} {v : Json} {name : String}
    (h : t.child v name = .labelled) : t = .inRole .labelledList ∧ ∃ xs, v = .arr xs := by
  unfold child at h
  split at h <;> first | exact ⟨rfl, _, rfl⟩ | cases h

theorem ofKeyword_eq_labelledList {keyword : String} (h : Role.ofKeyword keyword = .labelledList) :
    keyword = "allOf" := by
  unfold Role.ofKeyword at h
  split at h <;> first | rfl | cases h

theorem child_eq_labelledList {t : Treatment} {v : Json} {name : String}
    (h : t.child v name = .inRole .labelledList) :
    t.visits = true ∧ (∃ ms, v = .obj ms) ∧ name = "allOf" := by
  unfold child at h
  split at h <;>
    first
    | cases h
    | exact ⟨rfl, ⟨_, rfl⟩, ofKeyword_eq_labelledList (inRole.inj h)⟩

/-- Only the elements of an `allOf` of a visited object are labelled. -/
theorem exists_allOf_of_below_eq_labelled {v w : Json} {place : Place} (hw : v.at? place = some w)
    (h : (inRole .schema).below v place = .labelled) :
    ∃ (above : Place) (node : Members) (xs : List Json) (i : Nat),
      place = above ++ ["allOf", toString i] ∧ v.at? above = some (.obj node) ∧
      node.get? "allOf" = some (.arr xs) ∧ ((inRole .schema).below v above).visits = true := by
  cases place using List.reverseRecOn with
  | nil => cases h
  | append_singleton parent index =>
    rw [Json.at?_append, Option.bind_eq_some_iff] at hw
    obtain ⟨list, hlist, hindex⟩ := hw
    rw [Json.at?_singleton] at hindex
    simp only [below_append _ hlist, below, hindex] at h
    obtain ⟨hparent, xs, rfl⟩ := child_eq_labelled h
    cases parent using List.reverseRecOn with
    | nil => cases hparent
    | append_singleton above keyword =>
      rw [Json.at?_append, Option.bind_eq_some_iff] at hlist
      obtain ⟨owner, howner, hkeyword⟩ := hlist
      rw [Json.at?_singleton] at hkeyword
      simp only [below_append _ howner, below, hkeyword] at hparent
      obtain ⟨hvisits, ⟨node, rfl⟩, rfl⟩ := child_eq_labelledList hparent
      rw [Json.child?, Option.bind_eq_some_iff] at hindex
      obtain ⟨i, hi, -⟩ := hindex
      obtain rfl := Pointer.eq_toString_of_index? hi
      exact ⟨above, node, xs, i, by simp, howner, hkeyword, hvisits⟩

/-! ### Definitions are data -/

theorem below_verbatim (v : Json) (place : Place) :
    (inRole .verbatim).below v place = .inRole .verbatim := by
  induction place generalizing v with
  | nil => rfl
  | cons name place ih =>
    unfold below
    cases v.child? name with
    | none => rfl
    | some w => cases v <;> exact ih w

/-- The value of a keyword that is copied is data all the way down. -/
theorem below_copied {t : Treatment} {v : Json} {above : Place} {ms : Members}
    (hat : v.at? above = some (.obj ms)) (hvisits : (t.below v above).visits = true)
    {keyword : String} (hrole : Role.ofKeyword keyword = .verbatim) (rest : Place) :
    t.below v (above ++ keyword :: rest) = .inRole .verbatim := by
  rw [below_append t hat, below]
  cases (Json.obj ms).child? keyword with
  | none => rfl
  | some w =>
    rw [child_of_visits hvisits, hrole]
    exact below_verbatim w rest

/-- Below a keyword whose members are named freely is a map of schemas. -/
theorem ofKeyword_eq_schemaMap_iff (keyword : String) :
    Role.ofKeyword keyword = .schemaMap ↔
      keyword = "properties" ∨ keyword = "patternProperties" ∨ keyword = "dependencies" := by
  unfold Role.ofKeyword
  split <;> simp_all

theorem ofKeyword_of_definitions {keyword : String}
    (h : keyword = "definitions" ∨ keyword = "$defs") : Role.ofKeyword keyword = .verbatim := by
  rcases h with rfl | rfl <;> rfl

/-- A label changes nothing about how the members of an element are treated. -/
theorem below_labelled (v : Json) {place : Place} (h : place ≠ []) :
    labelled.below v place = (inRole .schema).below v place := by
  cases place with
  | nil => exact absurd rfl h
  | cons name place => cases v <;> rfl

theorem throughDefinitions_index_cons {name : String} {i : Nat}
    (h : Pointer.index? name = some i) (place : Place) :
    throughDefinitions (name :: place) = throughDefinitions place := by
  have hne {keyword : String} (hkeyword : Pointer.index? keyword = none) : name ≠ keyword := by
    rintro rfl
    rw [h] at hkeyword
    cases hkeyword
  have hdefinitions : name ≠ "definitions" := hne (by decide)
  have hdefs : name ≠ "$defs" := hne (by decide)
  have hproperties : name ≠ "properties" := hne (by decide)
  have hpatterns : name ≠ "patternProperties" := hne (by decide)
  have hdependencies : name ≠ "dependencies" := hne (by decide)
  simp [throughDefinitions_cons, hdefinitions, hdefs, hproperties, hpatterns, hdependencies]

/-- The value of a keyword that is no map of schemas is a schema, a list of schemas or data. -/
theorem below_role_eq_verbatim {role : Role} (hrole : role ≠ .schemaMap) {v : Json} {place : Place}
    (h : throughDefinitions place = true)
    (hschema : (inRole .schema).below v place = .inRole .verbatim)
    (helement : ∀ (x : Json) (name : String) (rest : Place), place = name :: rest →
      throughDefinitions rest = true → (inRole .schema).below x rest = .inRole .verbatim) :
    (inRole role).below v place = .inRole .verbatim := by
  cases place with
  | nil => cases h
  | cons name rest =>
    unfold below at hschema ⊢
    cases hchild : v.child? name with
    | none => rfl
    | some w =>
      rw [hchild] at hschema
      cases v with
      | null | bool | num | str => cases hchild
      | obj ms =>
        cases role with
        | schema => exact hschema
        | schemaOrList => exact hschema
        | schemaMap => exact absurd rfl hrole
        | schemaList => exact below_verbatim w rest
        | labelledList => exact below_verbatim w rest
        | verbatim => exact below_verbatim w rest
      | arr xs =>
        rw [Json.child?, Option.bind_eq_some_iff] at hchild
        obtain ⟨i, hi, -⟩ := hchild
        rw [throughDefinitions_index_cons hi] at h
        have hw := helement w name rest rfl h
        cases role with
        | schema => exact below_verbatim w rest
        | schemaMap => exact absurd rfl hrole
        | verbatim => exact below_verbatim w rest
        | schemaList => exact hw
        | schemaOrList => exact hw
        | labelledList =>
          change labelled.below w rest = _
          rw [below_labelled w (by rintro rfl; cases h)]
          exact hw

/-- Nothing that lies in definitions is treated as a schema, wherever a walk begins. -/
theorem below_eq_verbatim (v : Json) {place : Place} (h : throughDefinitions place = true) :
    (inRole .schema).below v place = .inRole .verbatim := by
  induction hn : place.length using Nat.strongRecOn generalizing v place with
  | _ n ih =>
    have hdeeper (w : Json) {rest : Place} (hlt : rest.length < n)
        (hrest : throughDefinitions rest = true) :
        (inRole .schema).below w rest = .inRole .verbatim := ih rest.length hlt w hrest rfl
    cases place with
    | nil => cases h
    | cons keyword rest =>
      rw [List.length_cons] at hn
      unfold below
      cases hchild : v.child? keyword with
      | none => rfl
      | some w =>
        cases v with
        | null | bool | num | str => cases hchild
        | arr xs => exact below_verbatim w rest
        | obj ms =>
          change (inRole (Role.ofKeyword keyword)).below w rest = _
          rw [throughDefinitions_cons] at h
          split at h
          · rename_i hkeyword
            rw [ofKeyword_of_definitions hkeyword]
            exact below_verbatim w rest
          · split at h
            · -- the name after the keyword is skipped
              rename_i hkeyword
              rw [(ofKeyword_eq_schemaMap_iff keyword).2 hkeyword]
              cases rest with
              | nil => cases h
              | cons name rest =>
                rw [List.length_cons] at hn
                unfold below
                cases hentry : w.child? name with
                | none => rfl
                | some entry =>
                  cases w with
                  | obj es => exact hdeeper entry (by omega) h
                  | arr _ => exact below_verbatim entry rest
                  | null | bool | num | str => cases hentry
            · rename_i hkeyword
              have hrole : Role.ofKeyword keyword ≠ .schemaMap :=
                fun hmap => hkeyword ((ofKeyword_eq_schemaMap_iff keyword).1 hmap)
              exact below_role_eq_verbatim hrole h (hdeeper w (by omega) h)
                (fun x name tail hx => hdeeper x (by rw [hx, List.length_cons] at hn; omega))

end Treatment

end Relayout
