/-
  Relayout/Proofs/Migration/Rework.lean
  =====================================
  **A document and what was made of it.**

  `Table.Reworks` relates two values as a run relates a document to its result, with no word
  of how it came to it: at every place that both have they are the same up to claimed and
  added keys, and what is new below an object is inert, that is, a visit of it comes to
  nothing.  So a visit of the second value treats the places of the first alike
  (`Reworks.below_eq`), and it follows the same references in the same order as long as no
  visited object is missing (`Reworks.carried_eq`).
-/
import Relayout.Proofs.Migration.Children
import Relayout.Proofs.Migration.WellFormed

namespace Relayout

/-- An object with keys of layouts only, or no object. -/
def Shape.Inert (shape : Shape) : Prop := ∀ keys, shape = .obj keys → keys ⊆ LayoutNode.keys

namespace Table

variable (table : Table)

/-- What becomes of the keys of an object: they stay, or the claimed ones go and others are
    added. -/
def RetainsKeys (keys keys' : List String) : Prop :=
  keys' = keys ∨ ∃ added, added ⊆ addedKeys ∧ (∀ key ∈ added, key ∉ keys) ∧
    keys' = keys.filter (fun key => !table.recognizes key) ++ added

/-- What becomes of a value, members and elements left aside. -/
inductive Retains : Json → Json → Prop where
  | null : Retains .null .null
  | bool (value : Bool) : Retains (.bool value) (.bool value)
  | num (value : Number) : Retains (.num value) (.num value)
  | str (value : String) : Retains (.str value) (.str value)
  | arr {xs ys : List Json} : ys.length = xs.length → Retains (.arr xs) (.arr ys)
  | obj {ms ns : Members} : table.RetainsKeys ms.keys ns.keys → Retains (.obj ms) (.obj ns)

/-- The second value is what may have been made of the first. -/
structure Reworks (v w : Json) : Prop where
  kept : ∀ place a b, v.at? place = some a → w.at? place = some b → table.Retains a b
  gained : ∀ place name b, v.at? place ≠ none → v.at? (place ++ [name]) = none →
    w.at? (place ++ [name]) = some b → name ∈ addedKeys ∧ b.shape.Inert

end Table

/-- Each object that a visit comes to in the first value has its place in the second. -/
def Treatment.Survives (t : Treatment) (v w : Json) : Prop :=
  ∀ below node, v.at? below = some (.obj node) → (t.below v below).visits = true →
    w.at? below ≠ none

/-- The references that the objects visited in a value carry, in the order in which they are
    followed. -/
def Json.carried (t : Treatment) (v : Json) : List String :=
  (v.visits t.role []).filterMap Visit.ref?

namespace Table

variable {table : Table}

/-! ### Keys -/

/-- A visited object has no claimed key left. -/
theorem recognizes_eq_false_of_mem_visited (table : Table) {keys added : List String}
    (hadded : added ⊆ addedKeys) {key : String}
    (hkey : key ∈ keys.filter (fun key => !table.recognizes key) ++ added) :
    table.recognizes key = false := by
  rcases List.mem_append.1 hkey with hkept | hnew
  · simpa using (List.mem_filter.1 hkept).2
  · exact table.recognizes_eq_false (hadded hnew)

namespace RetainsKeys

variable {keys keys' : List String}

theorem mem_of_not_recognized (h : table.RetainsKeys keys keys') {key : String}
    (hkey : key ∈ keys) (hclaimed : table.recognizes key = false) : key ∈ keys' := by
  rcases h with rfl | ⟨added, -, -, rfl⟩
  · exact hkey
  · apply List.mem_append_left
    exact List.mem_filter.2 ⟨hkey, by simp [hclaimed]⟩

theorem mem_or_mem_addedKeys (h : table.RetainsKeys keys keys') {key : String}
    (hkey : key ∈ keys') : key ∈ keys ∨ key ∈ addedKeys := by
  rcases h with rfl | ⟨added, hadded, -, rfl⟩
  · exact Or.inl hkey
  · rcases List.mem_append.1 hkey with hkept | hnew
    · exact Or.inl (List.mem_filter.1 hkept).1
    · exact Or.inr (hadded hnew)

theorem mem_iff (h : table.RetainsKeys keys keys') {key : String}
    (hclaimed : table.recognizes key = false) (hadded : key ∉ addedKeys) :
    key ∈ keys' ↔ key ∈ keys := by
  constructor
  · intro hkey
    exact (h.mem_or_mem_addedKeys hkey).resolve_right hadded
  · intro hkey
    exact h.mem_of_not_recognized hkey hclaimed

/-- What is listed key by key stays the same if nothing is listed for keys that went or came. -/
theorem flatMap_eq {α : Type} (h : table.RetainsKeys keys keys') {f g : String → List α}
    (hkept : ∀ key ∈ keys, key ∈ keys' → g key = f key)
    (hlost : ∀ key ∈ keys, key ∉ keys' → f key = [])
    (hgained : ∀ key ∈ keys', key ∉ keys → g key = []) :
    keys'.flatMap g = keys.flatMap f := by
  rcases h with rfl | ⟨added, -, hnew, rfl⟩
  · exact List.flatMap_congr (fun key hkey => hkept key hkey hkey)
  · have hnone : added.flatMap g = [] := by
      apply List.flatMap_eq_nil_iff.2
      intro key hkey
      exact hgained key (List.mem_append_right _ hkey) (hnew key hkey)
    have hfilter (keys : List String) : (keys.filter (fun key => !table.recognizes key)).flatMap g
        = keys.flatMap (fun key => if table.recognizes key then [] else g key) := by
      induction keys with
      | nil => rfl
      | cons key keys ih => cases hclaimed : table.recognizes key <;> simp [hclaimed, ih]
    rw [List.flatMap_append, hnone, List.append_nil, hfilter]
    apply List.flatMap_congr
    intro key hkey
    cases hclaimed : table.recognizes key with
    | false =>
      have hmem : key ∈ keys.filter (fun key => !table.recognizes key) :=
        List.mem_filter.2 ⟨hkey, by simp [hclaimed]⟩
      simpa using hkept key hkey (List.mem_append_left _ hmem)
    | true =>
      have hgone : key ∉ keys.filter (fun key => !table.recognizes key) ++ added := by
        intro hmem
        rcases List.mem_append.1 hmem with hfilter | hadded
        · simp [hclaimed] at hfilter
        · exact hnew key hadded hkey
      simpa using (hlost key hkey hgone).symm

end RetainsKeys

theorem retains_of_shape_eq {a b c : Json} (h : table.Retains a b) (hshape : c.shape = b.shape) :
    table.Retains a c := by
  cases h <;> cases c <;> simp only [Json.shape, reduceCtorEq, Shape.bool.injEq, Shape.num.injEq,
    Shape.str.injEq, Shape.arr.injEq, Shape.obj.injEq] at hshape
  · exact .null
  · exact hshape ▸ .bool _
  · exact hshape ▸ .num _
  · exact hshape ▸ .str _
  · rename_i hlength _
    exact .arr (hshape.trans hlength)
  · rename_i hkeys _
    exact .obj (hshape ▸ hkeys)

theorem Retains.refl (v : Json) : table.Retains v v := by
  cases v with
  | null => exact .null
  | bool value => exact .bool value
  | num value => exact .num value
  | str value => exact .str value
  | arr xs => exact .arr rfl
  | obj ms => exact .obj (Or.inl rfl)

theorem Retains.asString?_eq {a b : Json} (h : table.Retains a b) : b.asString? = a.asString? := by
  cases h <;> rfl

theorem Retains.child_eq {a b : Json} (h : table.Retains a b) (t : Treatment) (name : String) :
    t.child b name = t.child a name := by
  cases h with
  | null | bool | num | str => rfl
  | arr | obj =>
    cases t with
    | inRole role => cases role <;> rfl
    | labelled => rfl

/-! ### Children -/

namespace Reworks

variable {v w a b : Json} {name : String}

theorem root (h : table.Reworks v w) : table.Retains v w := h.kept [] v w rfl rfl

theorem at_place (h : table.Reworks v w) {place : Place} (ha : v.at? place = some a)
    (hb : w.at? place = some b) : table.Reworks a b := by
  constructor
  · intro below c d hc hd
    apply h.kept (place ++ below) c d
    · rwa [Json.at?_append_of_eq_some ha]
    · rwa [Json.at?_append_of_eq_some hb]
  · intro below key d hbelow hnone hd
    apply h.gained (place ++ below) key d
    · rwa [Json.at?_append_of_eq_some ha]
    · rwa [List.append_assoc, Json.at?_append_of_eq_some ha]
    · rwa [List.append_assoc, Json.at?_append_of_eq_some hb]

theorem child (h : table.Reworks v w) (ha : v.child? name = some a) (hb : w.child? name = some b) :
    table.Reworks a b := by
  rw [← Json.at?_singleton] at ha hb
  exact h.at_place ha hb

theorem inert (h : table.Reworks v w) (ha : v.child? name = none) (hb : w.child? name = some b) :
    name ∈ addedKeys ∧ b.shape.Inert := by
  rw [← Json.at?_singleton] at ha hb
  exact h.gained [] name b (Option.some_ne_none v) ha hb

theorem both_or_neither (h : table.Reworks v w)
    (hnone : v.child? name = none ↔ w.child? name = none) :
    (v.child? name = none ∧ w.child? name = none) ∨
      ∃ a b, v.child? name = some a ∧ w.child? name = some b ∧ table.Reworks a b := by
  cases ha : v.child? name with
  | none => exact Or.inl ⟨rfl, hnone.1 ha⟩
  | some a =>
    have hsome : w.child? name ≠ none := by
      intro hb
      rw [hnone.2 hb] at ha
      cases ha
    obtain ⟨b, hb⟩ := Option.ne_none_iff_exists'.1 hsome
    exact Or.inr ⟨a, b, rfl, hb, h.child ha hb⟩

/-- An element is in both arrays or in neither. -/
theorem element_cases {xs ys : List Json} (h : table.Reworks (.arr xs) (.arr ys)) (name : String) :
    ((Json.arr xs).child? name = none ∧ (Json.arr ys).child? name = none) ∨
      ∃ a b, (Json.arr xs).child? name = some a ∧ (Json.arr ys).child? name = some b ∧
        table.Reworks a b := by
  have hshape : (Json.arr ys).shape = (Json.arr xs).shape := by
    cases h.root with
    | arr hlength => rw [Json.shape, Json.shape, hlength]
  apply h.both_or_neither
  constructor
  · intro ha
    exact Json.child?_eq_none_of_shape_eq hshape.symm ha
  · intro hb
    exact Json.child?_eq_none_of_shape_eq hshape hb

/-- A child that is neither claimed nor added is in both values or in neither. -/
theorem child_cases (h : table.Reworks v w) (hclaimed : table.recognizes name = false)
    (hadded : name ∉ addedKeys) :
    (v.child? name = none ∧ w.child? name = none) ∨
      ∃ a b, v.child? name = some a ∧ w.child? name = some b ∧ table.Reworks a b := by
  cases h.root with
  | null | bool | num | str => exact Or.inl ⟨rfl, rfl⟩
  | arr => exact h.element_cases name
  | @obj ms ns hkeys =>
    apply h.both_or_neither
    rw [Json.child?, Json.child?, Members.get?_eq_none_iff, Members.get?_eq_none_iff,
      hkeys.mem_iff hclaimed hadded]

/-! ### Places -/

/-- Places that both values have are treated alike in both. -/
theorem below_eq (h : table.Reworks v w) (t : Treatment) {place : Place}
    (hv : v.at? place ≠ none) (hw : w.at? place ≠ none) : t.below w place = t.below v place := by
  induction place generalizing v w t with
  | nil => rfl
  | cons name place ih =>
    cases ha : v.child? name with
    | none =>
      rw [Json.at?_cons, ha] at hv
      exact absurd rfl hv
    | some a =>
      cases hb : w.child? name with
      | none =>
        rw [Json.at?_cons, hb] at hw
        exact absurd rfl hw
      | some b =>
        rw [Json.at?_cons, ha, Option.bind_some] at hv
        rw [Json.at?_cons, hb, Option.bind_some] at hw
        simp only [Treatment.below, ha, hb, h.root.child_eq]
        exact ih (h.child ha hb) _ hv hw

end Reworks

end Table

theorem Treatment.Survives.at_place {t : Treatment} {v w a b : Json} (h : t.Survives v w)
    {place : Place} (ha : v.at? place = some a) (hb : w.at? place = some b) :
    (t.below v place).Survives a b := by
  intro below node hnode hvisits
  have hbelow := h (place ++ below) node
  rw [Json.at?_append_of_eq_some ha, Json.at?_append_of_eq_some hb, below_append t ha] at hbelow
  exact hbelow hnode hvisits

theorem Treatment.Survives.child {t : Treatment} {v w a b : Json} (h : t.Survives v w)
    {name : String} (ha : v.child? name = some a) (hb : w.child? name = some b) :
    (t.child v name).Survives a b := by
  rw [← below_singleton t ha]
  rw [← Json.at?_singleton] at ha hb
  exact h.at_place ha hb

/-- A visited child that is missing is no object. -/
theorem Treatment.Survives.not_obj {t : Treatment} {v w a : Json} (h : t.Survives v w)
    {name : String} (ha : v.child? name = some a) (hb : w.child? name = none)
    (hvisits : (t.child v name).visits = true) (node : Members) : a ≠ .obj node := by
  rintro rfl
  apply h [name] node
  · rw [Json.at?_singleton, ha]
  · rwa [below_singleton t ha]
  · rw [Json.at?_singleton, hb]

/-! ### References -/

namespace Json

theorem exists_child?_of_mem_keys {ms : Members} {key : String} (h : key ∈ ms.keys) :
    ∃ v, (obj ms).child? key = some v := by
  apply Option.ne_none_iff_exists'.1
  intro hnone
  exact (Members.get?_eq_none_iff ms key).1 hnone h

/-- Which references are carried does not depend on where a value stands. -/
theorem filterMap_ref?_visits (v : Json) (role : Role) (place place' : Place) :
    (v.visits role place).filterMap Visit.ref? = (v.visits role place').filterMap Visit.ref? := by
  rw [← Dialect.filterMap_ref?_survey ⟨Table.builtin, {}⟩ .root place role v,
    Dialect.filterMap_ref?_survey ⟨Table.builtin, {}⟩ .root place' role v]

/-- The references carried in a child. -/
def childCarried (t : Treatment) (v : Json) (name : String) : List String :=
  ((v.child? name).map (carried (t.child v name))).getD []

theorem carried_eq (t : Treatment) {v : Json} (hv : v.WellFormed) :
    v.carried t
      = (t.names v).flatMap (childCarried t v) ++ (v.ownVisit t []).filterMap Visit.ref? := by
  rw [carried, visits_eq t hv, List.filterMap_append, List.filterMap_flatMap]
  congr 1
  apply List.flatMap_congr
  intro name _
  unfold childVisits childCarried
  cases v.child? name with
  | none => rfl
  | some w => exact w.filterMap_ref?_visits _ _ _

theorem carried_eq_nil_of_not_obj {v : Json} (h : ∀ node, v ≠ .obj node) :
    v.carried (.inRole .schema) = [] := by
  cases v with
  | obj node => exact absurd rfl (h node)
  | null | bool | num | str | arr => rfl

/-- An inert value has no child under a keyword, and no reference. -/
theorem child?_eq_none_of_inert {ms : Members} (h : (obj ms).shape.Inert) {name : String}
    (hname : name ∉ LayoutNode.keys) : ms.get? name = none := by
  rw [Members.get?_eq_none_iff]
  intro hmem
  exact hname (h ms.keys rfl hmem)

theorem carried_eq_nil_of_inert {v : Json} (hv : v.WellFormed) (h : v.shape.Inert) :
    v.carried (.inRole .schema) = [] := by
  cases v with
  | obj ms =>
    have hkeywords : ∀ keyword ∈ traversalOrder, keyword ∉ LayoutNode.keys := by decide
    have hchildren : traversalOrder.flatMap (childCarried (.inRole .schema) (obj ms)) = [] := by
      apply List.flatMap_eq_nil_iff.2
      intro keyword hkeyword
      have hnone := child?_eq_none_of_inert h (hkeywords keyword hkeyword)
      simp [childCarried, child?, hnone]
    have href : (Visit.mk [] ms).ref? = none := by
      simp [Visit.ref?, child?_eq_none_of_inert h (by decide : "$ref" ∉ LayoutNode.keys)]
    rw [carried_eq _ hv]
    change traversalOrder.flatMap (childCarried (.inRole .schema) (obj ms))
      ++ [Visit.mk [] ms].filterMap Visit.ref? = []
    rw [hchildren]
    simp [href]
  | null | bool | num | str | arr => rfl

end Json

namespace Table.Reworks

variable {table : Table}

/-- A text under a key that is neither claimed nor added stays. -/
theorem text?_eq {ms ns : Members} (h : table.Reworks (.obj ms) (.obj ns)) {key : String}
    (hclaimed : table.recognizes key = false) (hadded : key ∉ addedKeys) :
    ns.text? key = ms.text? key := by
  unfold Members.text?
  rcases h.child_cases hclaimed hadded with ⟨ha, hb⟩ | ⟨a, b, ha, hb, hchild⟩
  · rw [show ms.get? key = none from ha, show ns.get? key = none from hb]
  · rw [show ms.get? key = some a from ha, show ns.get? key = some b from hb]
    exact hchild.root.asString?_eq

theorem ref?_eq {ms ns : Members} (h : table.Reworks (.obj ms) (.obj ns)) (place : Place) :
    (Visit.mk place ns).ref? = (Visit.mk place ms).ref? :=
  h.text?_eq (table.recognizes_eq_false_of_builtin (by decide)) (by decide)

/-- What is listed entry by entry stays the same if nothing is listed for entries that are no
    objects, or inert: the entries that went are the ones, those that came the others. -/
theorem flatMap_entries_eq {α : Type} {ms ns : Members} (h : table.Reworks (.obj ms) (.obj ns))
    (hsurvives : (Treatment.inRole .schemaMap).Survives (.obj ms) (.obj ns))
    {f g : String → List α}
    (hkept : ∀ key a b, (Json.obj ms).child? key = some a → (Json.obj ns).child? key = some b →
      g key = f key)
    (hlost : ∀ key a, (Json.obj ms).child? key = some a → (∀ node, a ≠ .obj node) → f key = [])
    (hgained : ∀ key b, (Json.obj ns).child? key = some b → b.shape.Inert → g key = []) :
    ns.keys.flatMap g = ms.keys.flatMap f := by
  cases h.root with
  | obj hkeys =>
    apply hkeys.flatMap_eq
    · intro key hkey hkey'
      obtain ⟨a, ha⟩ := Json.exists_child?_of_mem_keys hkey
      obtain ⟨b, hb⟩ := Json.exists_child?_of_mem_keys hkey'
      exact hkept key a b ha hb
    · intro key hkey hgone
      obtain ⟨a, ha⟩ := Json.exists_child?_of_mem_keys hkey
      have hb : (Json.obj ns).child? key = none := (Members.get?_eq_none_iff ns key).2 hgone
      exact hlost key a ha (hsurvives.not_obj ha hb rfl)
    · intro key hkey' hnew
      obtain ⟨b, hb⟩ := Json.exists_child?_of_mem_keys hkey'
      have ha : (Json.obj ms).child? key = none := (Members.get?_eq_none_iff ms key).2 hnew
      exact hgained key b hb (h.inert ha hb).2

/-- If no visited object is missing, visits of both values follow the same references in the same
    order. -/
theorem carried_eq {v w : Json} (h : table.Reworks v w) {t : Treatment} (hsurvives : t.Survives v w)
    (hv : v.WellFormed) (hw : w.WellFormed) : w.carried t = v.carried t := by
  induction v using Json.induction_on_children generalizing w t with
  | step v ih =>
    have hchild {name : String} {a b : Json} (ha : v.child? name = some a)
        (hb : w.child? name = some b) :
        Json.childCarried t w name = Json.childCarried t v name := by
      have hsurvivesChild := hsurvives.child ha hb
      simp only [Json.childCarried, ha, hb, h.root.child_eq]
      exact ih name a ha (h.child ha hb) hsurvivesChild (hv.child ha) (hw.child hb)
    rw [Json.carried_eq t hv, Json.carried_eq t hw]
    cases h.root with
    | null | bool | num | str => rfl
    | @arr xs ys hlength =>
      have hnames : t.names (.arr ys) = t.names (.arr xs) := by
        cases t with
        | inRole role => cases role <;> simp only [Treatment.names, hlength]
        | labelled => rfl
      rw [hnames]
      congr 1
      apply List.flatMap_congr
      intro name _
      rcases h.element_cases name with ⟨ha, hb⟩ | ⟨a, b, ha, hb, -⟩
      · simp only [Json.childCarried, ha, hb]
        rfl
      · exact hchild ha hb
    | @obj ms ns hkeys =>
      cases ht : t.visits with
      | true =>
        have hnames (node : Members) : t.names (.obj node) = traversalOrder := by
          rcases Treatment.of_visits_eq_true ht with rfl | rfl | rfl <;> rfl
        have hkeywords : ∀ keyword ∈ traversalOrder,
            keyword ∉ builtin.recognizedKeys ∧ keyword ∉ addedKeys := by decide
        rw [hnames, hnames]
        congr 1
        · apply List.flatMap_congr
          intro keyword hkeyword
          obtain ⟨hbuiltin, hadded⟩ := hkeywords keyword hkeyword
          have hclaimed := table.recognizes_eq_false_of_builtin hbuiltin
          rcases h.child_cases hclaimed hadded with ⟨ha, hb⟩ | ⟨a, b, ha, hb, -⟩
          · simp only [Json.childCarried, ha, hb]
            rfl
          · exact hchild ha hb
        · simp only [Json.ownVisit, ht, if_true, List.filterMap_cons, List.filterMap_nil,
            h.ref?_eq]
      | false =>
        simp only [Json.ownVisit, ht, Bool.false_eq_true, if_false]
        rcases Treatment.of_visits_eq_false ht with rfl | rfl | rfl | rfl
        · congr 1
          apply h.flatMap_entries_eq hsurvives
          · intro key a b ha hb
            exact hchild ha hb
          · intro key a ha hnot
            simp only [Json.childCarried, ha]
            exact Json.carried_eq_nil_of_not_obj hnot
          · intro key b hb hinert
            simp only [Json.childCarried, hb]
            exact Json.carried_eq_nil_of_inert (hw.child hb) hinert
        · rfl
        · rfl
        · rfl

end Table.Reworks

end Relayout
