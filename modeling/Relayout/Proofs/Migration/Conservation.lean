/-
  Relayout/Proofs/Migration/Conservation.lean
  ===========================================
  **What a run leaves of a document, and what it adds.**

  Compared place by place, a document and what a run makes of it have the same scalars, and
  arrays of the same length.  An object that was visited loses the members that the table
  claims; what it keeps stays in order, and a layout, a label or an identity may follow
  (`Migration.Keeps`).  A place is lost only with a claimed member on the way to it, and
  gained only with an added one (`Transformer.conserves_run`).

  This holds wherever references lead: a place that several visits migrate shows what one of
  them makes of the value that the document has there (`Dialect.exists_treated_of_walk`).
-/
import Relayout.Proofs.Migration.Walk

namespace Relayout

namespace Table

variable (table : Table) (visited : Place → Members → Prop)

/-- Why a run that visited some objects gives an object at a place a member with a key. -/
inductive Adds (place : Place) (node : Members) : String → Prop where
  /-- A visited object with a claimed key gets a layout. -/
  | layout : visited place node → (∃ key ∈ node.keys, table.recognizes key = true) →
    "layout" ∉ node.keys → Adds place node "layout"
  /-- An element of the `allOf` of a visited object gets a label. -/
  | label {above : Place} {parent : Members} {elements : List Json} {i : Nat} :
    place = above ++ ["allOf", toString i] → visited above parent →
    parent.get? "allOf" = some (.arr elements) → "oneOfLayout" ∉ node.keys →
    Adds place node "oneOfLayout"
  /-- The root gets an identity. -/
  | id : place = [] → "$id" ∉ node.keys → Adds place node "$id"

/-- What a run makes of the keys of an object: the claimed ones go if it was visited, the others
    stay in order, and the added ones follow. -/
def KeepsKeys (place : Place) (node : Members) (keys : List String) : Prop :=
  ∃ kept added, keys = kept ++ added ∧
    (kept = node.keys ∨
      visited place node ∧ kept = node.keys.filter (fun key => !table.recognizes key)) ∧
    added.Sublist addedKeys ∧ ∀ key ∈ added, table.Adds visited place node key

/-- What a run makes of the value at a place, members and elements left aside. -/
inductive Keeps (place : Place) : Json → Json → Prop where
  | null : Keeps place .null .null
  | bool (value : Bool) : Keeps place (.bool value) (.bool value)
  | num (value : Number) : Keeps place (.num value) (.num value)
  | str (value : String) : Keeps place (.str value) (.str value)
  | arr {xs ys : List Json} : ys.length = xs.length → Keeps place (.arr xs) (.arr ys)
  | obj {node out : Members} : table.KeepsKeys visited place node out.keys →
    Keeps place (.obj node) (.obj out)

end Table

/-- What a run leaves of a document. -/
structure Migration.Conserves (m : Migration) (table : Table) (document : Json) : Prop where
  /-- Where both have a value, it is kept. -/
  kept : ∀ place v w, document.at? place = some v → m.schema.at? place = some w →
    table.Keeps (m.Visited document) place v w
  /-- A place is lost with a claimed member of a visited object. -/
  lost : ∀ place, document.at? place ≠ none → m.schema.at? place = none →
    ∃ above key node, above ++ [key] <+: place ∧ m.Visited document above node ∧
      table.recognizes key = true
  /-- A place is gained with an added member. -/
  gained : ∀ place, document.at? place = none → m.schema.at? place ≠ none →
    ∃ above key node, above ++ [key] <+: place ∧ document.at? above = some (.obj node) ∧
      table.Adds (m.Visited document) above node key

/-! ### One place -/

namespace Table

variable {table : Table} {visited : Place → Members → Prop} {place : Place}

theorem keeps_of_shape_eq {v w : Json} (h : w.shape = v.shape) :
    table.Keeps visited place v w := by
  cases v <;> cases w <;> simp only [Json.shape, reduceCtorEq, Shape.bool.injEq, Shape.num.injEq,
    Shape.str.injEq, Shape.arr.injEq, Shape.obj.injEq] at h
  · exact .null
  · exact h ▸ .bool _
  · exact h ▸ .num _
  · exact h ▸ .str _
  · exact .arr h
  · exact .obj ⟨_, [], by rw [h, List.append_nil], Or.inl rfl, List.nil_sublist _, by simp⟩

/-- A place that is gained lies below a key that was added. -/
theorem exists_added_of_gained {document schema : Json}
    (hkept : ∀ place v w, document.at? place = some v → schema.at? place = some w →
      table.Keeps visited place v w)
    (hnone : document.at? place = none) (hsome : schema.at? place ≠ none) :
    ∃ above key node, above ++ [key] <+: place ∧ document.at? above = some (.obj node) ∧
      table.Adds visited above node key := by
  induction place using List.reverseRecOn with
  | nil => cases hnone
  | append_singleton parent key ih =>
    have hparent := Json.at?_ne_none_of_append hsome
    cases hv : document.at? parent with
    | none =>
      -- the place was gained further up already
      obtain ⟨above, name, node, hprefix, hrest⟩ := ih hv hparent
      exact ⟨above, name, node, hprefix.trans (List.prefix_append _ _), hrest⟩
    | some v =>
      obtain ⟨w, hw⟩ := Option.ne_none_iff_exists'.1 hparent
      rw [Json.at?_append_of_eq_some hv, Json.at?_singleton] at hnone
      rw [Json.at?_append_of_eq_some hw, Json.at?_singleton] at hsome
      cases hkept parent v w hv hw with
      | null | bool | num | str => exact absurd rfl hsome
      | @arr xs ys hlength =>
        have hshape : (Json.arr xs).shape = (Json.arr ys).shape := by simp [Json.shape, hlength]
        exact absurd (Json.child?_eq_none_of_shape_eq hshape hnone) hsome
      | @obj node out hkeys =>
        obtain ⟨kept, added, hout, hkept, -, hadds⟩ := hkeys
        rw [Json.child?, Members.get?_eq_none_iff] at hnone
        rw [Json.child?, Ne, Members.get?_eq_none_iff, Decidable.not_not, hout,
          List.mem_append] at hsome
        have hnotKept : key ∉ kept := by
          rcases hkept with rfl | ⟨-, rfl⟩
          · exact hnone
          · exact fun hmem => hnone (List.mem_filter.1 hmem).1
        exact ⟨parent, key, node, List.prefix_rfl, hv,
          hadds key (hsome.resolve_left hnotKept)⟩

end Table

namespace Dialect

variable {d : Dialect} {document : Json} {m : Migration}

/-! ### A walk -/

/-- What the visit of a start makes of the keys of an object that it visits. -/
theorem keepsKeys_of_visits {start : Place} (hstart : start ∈ m.starts) {target : Json}
    (htarget : document.at? start = some target) {below : Place} {node : Members}
    (hnode : target.at? below = some (.obj node))
    (hvisits : ((Treatment.inRole .schema).below target below).visits = true)
    {keys : List String}
    (hkeys : (d.treat ((Treatment.inRole .schema).below target below) (.obj node)).shape
      = .obj keys) :
    d.table.KeepsKeys (m.Visited document) (start ++ below) node keys := by
  have hvisited := visited_of_below hstart htarget hnode hvisits
  obtain ⟨label, htreat, hlabel⟩ := d.treat_obj_of_visits hvisits node
  rw [htreat, Json.shape, Shape.obj.injEq, Members.keys_append, Members.keys_append,
    keys_migrateMembers] at hkeys
  refine ⟨_, (d.layoutMember node).keys ++ label.keys, ?_, Or.inr ⟨hvisited, rfl⟩, ?_, ?_⟩
  · rw [← hkeys, List.append_assoc]
  · have hlayoutSublist : (d.layoutMember node).keys.Sublist ["layout"] := by
      rcases d.keys_layoutMember node with hnone | ⟨hlayout, -⟩
      · simp [hnone]
      · simp [hlayout]
    have hlabelSublist : label.keys.Sublist ["oneOfLayout", "$id"] := by
      rcases hlabel with hnone | ⟨hlabel, -⟩
      · simp [hnone]
      · simp [hlabel]
    exact hlayoutSublist.append hlabelSublist
  · intro key hkey
    rcases List.mem_append.1 hkey with hkey | hkey
    · rcases d.keys_layoutMember node with hnone | ⟨hlayout, hnew, hclaimed⟩
      · simp [hnone] at hkey
      · obtain rfl : key = "layout" := by simpa [hlayout] using hkey
        exact .layout hvisited hclaimed hnew
    · rcases hlabel with hnone | ⟨hlabel, hnew, hlabelled⟩
      · simp [hnone] at hkey
      · obtain rfl : key = "oneOfLayout" := by simpa [hlabel] using hkey
        obtain ⟨above, parent, elements, i, rfl, hparent, helements, hvisitsParent⟩ :=
          Treatment.exists_allOf_of_below_eq_labelled hnode hlabelled
        exact .label (List.append_assoc start above ["allOf", toString i]).symm
          (visited_of_below hstart htarget hparent hvisitsParent) helements hnew

/-- A walk keeps what the document has at each place. -/
theorem keeps_walk (h : (d.walk document).result = .ok m) {place : Place} {v w : Json}
    (hv : document.at? place = some v) (hw : m.schema.at? place = some w) :
    d.table.Keeps (m.Visited document) place v w := by
  obtain ⟨start, hstart, target, below, rfl, htarget, hbelow, hshape⟩ :=
    exists_treated_of_walk h hv hw
  rcases ((Treatment.inRole .schema).below target below).visited_or_not v with
    ⟨hvisits, node, rfl⟩ | hnot
  · obtain ⟨label, htreat, -⟩ := d.treat_obj_of_visits hvisits node
    cases w with
    | obj out =>
      exact .obj (keepsKeys_of_visits hstart htarget hbelow hvisits hshape.symm)
    | null | bool | num | str | arr =>
      rw [htreat] at hshape
      cases hshape
  · rw [d.shape_treat_of_not_visits hnot] at hshape
    exact Table.keeps_of_shape_eq hshape

/-- A walk keeps a member of the root that the table does not claim. -/
theorem child?_walk_ne_none (h : (d.walk document).result = .ok m) {key : String}
    (hkey : d.table.recognizes key = false) (hchild : document.child? key ≠ none) :
    m.schema.child? key ≠ none := by
  intro hnone
  obtain ⟨v, hv⟩ := Option.ne_none_iff_exists'.1 hchild
  rw [← Json.at?_singleton] at hv hnone
  obtain ⟨above, name, node, hprefix, -, hclaimed⟩ := exists_claimed_of_lost h hv hnone
  have hmem : name ∈ [key] := hprefix.subset (by simp)
  rw [List.mem_singleton.1 hmem, hkey] at hclaimed
  cases hclaimed

end Dialect

/-! ### The identity of the root -/

namespace Json

/-- An identity is given to an object without one. -/
theorem stamped_obj (id : String) (root : Members) :
    (obj root).stamped id = obj root ∨
      (obj root).stamped id = obj (root ++ [("$id", .str id)]) ∧ "$id" ∉ root.keys := by
  cases hid : root.has "$id" with
  | true => exact Or.inl (by simp [stamped, stampRootId, hid])
  | false =>
    refine Or.inr ⟨by simp [stamped, stampRootId, hid], ?_⟩
    rw [← Members.has_iff_mem_keys, hid]
    exact Bool.false_ne_true

/-- Below the root nothing changes, and only the identity can be new. -/
theorem at?_stamped_cons (id : String) (v : Json) (name : String) (place : Place) :
    (v.stamped id).at? (name :: place) = v.at? (name :: place) ∨
      name = "$id" ∧ v.child? "$id" = none := by
  cases v with
  | obj root =>
    rcases stamped_obj id root with hsame | ⟨hnew, hid⟩
    · exact Or.inl (by rw [hsame])
    · rw [← Members.get?_eq_none_iff] at hid
      by_cases hname : name = "$id"
      · exact Or.inr ⟨hname, hid⟩
      · left
        have hne : ¬ "$id" = name := fun heq => hname heq.symm
        simp [hnew, at?_cons, child?, Members.get?_append, Members.get?, hne]
  | null | bool | num | str | arr => exact Or.inl rfl

end Json

/-- A root with an identity is kept like the root without it. -/
theorem Table.Keeps.stamped {table : Table} {visited : Place → Members → Prop} {v w : Json}
    (h : table.Keeps visited [] v w) (id : String) : table.Keeps visited [] v (w.stamped id) := by
  cases h with
  | null => exact .null
  | bool value => exact .bool value
  | num value => exact .num value
  | str value => exact .str value
  | arr hlength => exact .arr hlength
  | @obj node out hkeys =>
    rcases Json.stamped_obj id out with hsame | ⟨hnew, hid⟩
    · rw [hsame]
      exact .obj hkeys
    · rw [hnew]
      obtain ⟨kept, added, hout, hkept, hsublist, hadds⟩ := hkeys
      rw [hout, List.mem_append, not_or] at hid
      have hnode : "$id" ∉ node.keys := by
        rcases hkept with rfl | ⟨-, rfl⟩
        · exact hid.1
        · have hclaimed : table.recognizes "$id" = false :=
            table.recognizes_eq_false (by decide)
          simpa [hclaimed] using hid.1
      refine .obj ⟨kept, added ++ ["$id"], ?_, hkept, ?_, ?_⟩
      · rw [Members.keys_append, hout, List.append_assoc]
        rfl
      · have hothers : added.Sublist ["layout", "oneOfLayout"] := by
          have hfilter := hsublist.filter (fun key => decide (key ≠ "$id"))
          rwa [List.filter_eq_self.2 (fun key hkey => by
            simpa using fun heq : key = "$id" => hid.2 (heq ▸ hkey))] at hfilter
        exact hothers.append (List.Sublist.refl ["$id"])
      · intro key hkey
        rcases List.mem_append.1 hkey with hkey | hkey
        · exact hadds key hkey
        · obtain rfl := List.mem_singleton.1 hkey
          exact .id rfl hnode

/-! ### A run -/

section Run

variable {d : Dialect} {document : Json} {m : Migration} {place : Place}

theorem Dialect.keeps_stamped_walk (h : (d.walk document).result = .ok m) (id : String)
    {v w : Json} (hv : document.at? place = some v)
    (hw : (m.schema.stamped id).at? place = some w) :
    d.table.Keeps (m.Visited document) place v w := by
  cases place with
  | nil =>
    cases hv
    cases hw
    have hroot : d.table.Keeps (m.Visited document) [] document m.schema := keeps_walk h rfl rfl
    exact hroot.stamped id
  | cons name place =>
    rcases Json.at?_stamped_cons id m.schema name place with hsame | ⟨rfl, hnone⟩
    · exact keeps_walk h hv (hsame ▸ hw)
    · -- no identity is new where the document has one
      have hplace : document.at? (["$id"] ++ place) ≠ none := by
        rw [List.singleton_append, hv]
        exact Option.some_ne_none v
      have hid := Json.at?_ne_none_of_append hplace
      rw [Json.at?_singleton] at hid
      exact absurd hnone (child?_walk_ne_none h (Table.recognizes_eq_false _ (by decide)) hid)

theorem Json.at?_eq_none_of_stamped {id : String} {v : Json}
    (h : (v.stamped id).at? place = none) : v.at? place = none := by
  cases place with
  | nil => cases h
  | cons name place =>
    rcases at?_stamped_cons id v name place with hsame | ⟨rfl, hchild⟩
    · rw [← hsame, h]
    · simp [at?_cons, hchild]

/-- **A run that succeeds conserves the document**: it takes away claimed members of visited
    objects, adds layouts, labels and an identity, and changes nothing else. -/
theorem Transformer.conserves_run {t : Transformer} (h : (t.run document).result = .ok m) :
    m.Conserves t.dialect.table document := by
  obtain ⟨schema, hwalk, hstamped⟩ := exists_walk_of_run h
  -- what was visited is the same in the walk and in the run
  obtain ⟨_, resolved⟩ := m
  obtain rfl : _ = schema.stamped t.rootId := hstamped
  have hkept : ∀ place v w, document.at? place = some v →
      (schema.stamped t.rootId).at? place = some w →
      t.dialect.table.Keeps (Migration.Visited ⟨schema, resolved⟩ document) place v w :=
    fun place v w hv hw => Dialect.keeps_stamped_walk hwalk t.rootId hv hw
  refine ⟨hkept, fun place hplace hnone => ?_, fun place => Table.exists_added_of_gained hkept⟩
  obtain ⟨v, hv⟩ := Option.ne_none_iff_exists'.1 hplace
  exact Dialect.exists_claimed_of_lost hwalk hv (Json.at?_eq_none_of_stamped hnone)

end Run

namespace Transformer

/-- A document whose root gains an identity, and an element of whose `allOf` loses an extension
    and gains a layout and a label. -/
def choiceDocument : Json :=
  .obj [("title", .str "Shape"), ("allOf", .arr [.obj [("x-display", .str "card"),
    ("oneOf", .arr [.obj [("properties", .obj [("kind", .obj [("const", .str "circle"),
      ("title", .str "Kind")])])]])]])]

/-- What a run makes of it. -/
def choiceMigration : Migration where
  schema := .obj [("title", .str "Shape"), ("allOf", .arr [.obj [
    ("oneOf", .arr [.obj [("properties", .obj [("kind", .obj [("const", .str "circle"),
      ("title", .str "Kind")])])]]),
    ("layout", .str "card"), ("oneOfLayout", .obj [("label", .str "Kind")])]]),
    ("$id", .str "_jl")]
  resolved := []

theorem conserves_run_choiceDocument :
    (run ⟨⟨Table.builtin, {}⟩, defaultRootId, none⟩ choiceDocument).result = .ok choiceMigration ∧
      choiceMigration.Conserves Table.builtin choiceDocument :=
  have hrun : (run ⟨⟨Table.builtin, {}⟩, defaultRootId, none⟩ choiceDocument).result
      = .ok choiceMigration := Trace.result_eq_ok_of_toOption (by decide +kernel)
  ⟨hrun, conserves_run hrun⟩

end Transformer

end Relayout
