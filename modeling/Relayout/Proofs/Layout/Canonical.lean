/-
  Relayout/Proofs/Layout/Canonical.lean
  =====================================
  **What is read as a layout is written in canonical form.**

  A value that can be read as a layout holds more than the layout: unknown members, members that
  are null, an order of the members, and for a descriptor another spelling (an array of its fields,
  or a kind of evaluation as an object).  The canonical form of the value is without all that
  (`LayoutNode.form`), and it is what the layout is written as (`LayoutNode.toJson_of_ofJson`).
-/
import Relayout.Layout.Codec
import Relayout.Proofs.Json.Induction
import Relayout.Proofs.Outcome

namespace Relayout

/-- The value under a key, if it is not null. -/
def Members.present? (ms : Members) (key : String) : Option Json :=
  (ms.get? key).filter (fun v => v ≠ .null)

/-- An object by fields: what stands under their keys and is not null, in the order of the fields,
    each value in the form for its field. -/
def Json.byFields (fields : List (String × (Json → Json))) : Json → Json
  | .obj ms => .obj (fields.flatMap
      (fun field => optionalMember field.1 field.2 (Members.present? ms field.1)))
  | v => v

/-- An array of the values of fields as the object with these fields. -/
def Json.named (fields : List String) : Json → Json
  | .arr xs => .obj (fields.zip xs)
  | v => v

/-! ### Canonical forms -/

/-- A kind of evaluation by its bare name. -/
def ExprType.canonical : Json → Json
  | .obj [(name, .null)] => .str name
  | v => v

/-- A descriptor by its known members only. -/
def Descriptor.trimmed : Json → Json :=
  Json.byFields [("expr", id), ("type", id), ("pure", id)]

/-- A descriptor by its known members only, in the documented spelling. -/
def Descriptor.canonical (v : Json) : Json :=
  (v.named record.fields).byFields [("expr", id), ("type", ExprType.canonical), ("pure", id)]

/-- An item source by its known members only; those of a fetched origin and of an evaluated one
    are not the same. -/
def ItemSource.form (descriptor : Json → Json) (v : Json) : Json :=
  if (v.get? "url").isSome then
    v.byFields [("url", descriptor), ("itemsProp", id), ("itemKey", id), ("itemTitle", id)]
  else v.byFields [("expr", id), ("itemKey", id), ("itemTitle", id)]

/-- A layout by its known members only, its descriptors in a form of their own. -/
def LayoutNode.form (descriptor : Json → Json) : Json → Json :=
  Json.byFields [("comp", id), ("getItems", ItemSource.form descriptor), ("label", id),
    ("cond", descriptor), ("itemTitle", id), ("itemKey", id), ("props", id), ("cols", id)]

/-! ### Fields that are read -/

theorem Members.present?_eq_some_iff {ms : Members} {key : String} {v : Json} :
    ms.present? key = some v ↔ ms.get? key = some v ∧ v ≠ .null := by
  simp [present?, Option.filter_eq_some_iff]

namespace Decode

variable {α : Type} {read : Json → Except DecodeError α} {write : α → Json} {form : Json → Json}
  {ms : Members} {key : String}

/-- What is optional was read from the value that is there. -/
theorem read_of_optional {v : Json} {a : Option α} (h : optional read (some v) = .ok a)
    (hnull : v ≠ .null) : ∃ b, read v = .ok b ∧ a = some b := by
  have hsome : optional read (some v) = (read v).map some := by
    cases v with
    | null => exact absurd rfl hnull
    | bool | num | str | arr | obj => rfl
  rw [hsome] at h
  cases hread : read v with
  | error e =>
    rw [hread] at h
    cases h
  | ok b =>
    rw [hread] at h
    cases h
    exact ⟨b, rfl, rfl⟩

theorem optionalMember_present? {v : Json} (hget : ms.get? key = some v) (hnull : v ≠ .null) :
    optionalMember key form (ms.present? key) = [(key, form v)] := by
  rw [Members.present?_eq_some_iff.2 ⟨hget, hnull⟩, optionalMember]

/-- An optional field that was read is written as what stood there, if that was not null. -/
theorem optionalMember_of_optional {a : Option α} (h : optional read (ms.get? key) = .ok a)
    (hwrite : ∀ v b, ms.get? key = some v → read v = .ok b → write b = form v) :
    optionalMember key write a = optionalMember key form (ms.present? key) := by
  cases hget : ms.get? key with
  | none =>
    rw [hget] at h
    cases h
    rw [Members.present?, hget]
    rfl
  | some v =>
    rw [hget] at h
    by_cases hnull : v = .null
    · subst hnull
      cases h
      rw [Members.present?, hget]
      rfl
    · obtain ⟨b, hread, rfl⟩ := read_of_optional h hnull
      rw [optionalMember_present? hget hnull, optionalMember, hwrite v b hget hread]

theorem required_eq_ok_iff {missing : DecodeError} {v : Option Json} {a : α} :
    required missing read v = .ok a ↔ ∃ w, v = some w ∧ read w = .ok a := by
  cases v <;> simp [required]

theorem str_of_string {v : Json} {s : String} (h : string v = .ok s) : .str s = v := by
  cases v <;> cases h
  rfl

theorem bool_of_boolean {v : Json} {b : Bool} (h : boolean v = .ok b) : .bool b = v := by
  cases v <;> cases h
  rfl

theorem obj_of_object {v : Json} {members : Members} (h : object v = .ok members) :
    .obj members = v := by
  cases v <;> cases h
  rfl

/-- A field for a string is written as it stood. -/
theorem optionalMember_of_string {text : Option String}
    (h : optional string (ms.get? key) = .ok text) :
    optionalMember key .str text = optionalMember key id (ms.present? key) :=
  optionalMember_of_optional h (fun _ _ _ => str_of_string)

/-- A record is put together from the members that its value names. -/
theorem Record.build_of_read {r : Record α} {v : Json} {a : α} (h : r.read v = .ok a) :
    ∃ (missing : DecodeError) (ms : Members), v.named r.fields = .obj ms ∧
      r.build missing ms = .ok a := by
  cases v with
  | obj ms =>
    obtain ⟨_, -, hbuild⟩ := bind_eq_ok_iff.1 h
    exact ⟨_, ms, rfl, hbuild⟩
  | arr xs =>
    rw [read] at h
    split at h
    · rename_i value hvalue
      obtain ⟨_, -, hbuild⟩ := bind_eq_ok_iff.1 hvalue
      split at h
      · cases h
      · cases h
        exact ⟨_, r.fields.zip xs, rfl, hbuild⟩
    · cases h
  | null | bool | num | str => cases h

end Decode

open Decode

/-! ### Layouts that are read -/

theorem ExprType.toJson_of_ofJson {v : Json} {t : ExprType} (h : ofJson v = .ok t) :
    t.toJson = canonical v := by
  have hname {name : String} {u : ExprType} (hu : ofName name = .ok u) : u.name = name := by
    unfold ofName at hu
    split at hu
    · rename_i hexpression
      cases hu
      exact hexpression.symm
    · split at hu
      · rename_i htemplate
        cases hu
        exact htemplate.symm
      · cases hu
  unfold ofJson at h
  split at h
  · exact congrArg Json.str (hname h)
  · split at h
    · rename_i hu
      cases h
      exact congrArg Json.str (hname hu)
    · cases h
    · cases h
  · cases h
  · cases h

/-- Whatever is read as a descriptor is one in canonical form. -/
theorem Descriptor.toJson_of_ofJson {v : Json} {d : Descriptor} (h : ofJson v = .ok d) :
    d.toJson = canonical v := by
  obtain ⟨missing, ms, hms, hbuild⟩ := Record.build_of_read h
  obtain ⟨expr, hexpr, hbuild⟩ := bind_eq_ok_iff.1 hbuild
  obtain ⟨type, htype, hbuild⟩ := bind_eq_ok_iff.1 hbuild
  obtain ⟨isPure, hpure, hbuild⟩ := bind_eq_ok_iff.1 hbuild
  cases hbuild
  obtain ⟨text, htext, hstring⟩ := required_eq_ok_iff.1 hexpr
  obtain rfl := str_of_string hstring
  have hexpr : optionalMember "expr" id (ms.present? "expr") = [("expr", .str expr)] :=
    optionalMember_present? htext (by simp)
  have htype : optionalMember "type" ExprType.toJson type
      = optionalMember "type" ExprType.canonical (ms.present? "type") :=
    optionalMember_of_optional htype (fun _ _ _ => ExprType.toJson_of_ofJson)
  have hpure : optionalMember "pure" .bool isPure
      = optionalMember "pure" id (ms.present? "pure") :=
    optionalMember_of_optional hpure (fun _ _ _ => bool_of_boolean)
  rw [canonical, hms, toJson, htype, hpure]
  simp [Json.byFields, hexpr]

/-- What an origin was read from: its URL, or its text, if there is no more than one of them. -/
theorem ItemOrigin.read_of_ofMembers {ms : Members} {origin : ItemOrigin}
    (h : ofMembers ms = .ok origin) (hone : ms.get? "url" = none ∨ ms.get? "expr" = none) :
    (∃ (url : Json) (descriptor : Descriptor) (itemsProp : Option String),
      ms.get? "url" = some url ∧ Descriptor.ofJson url = .ok descriptor ∧
        optional string (ms.get? "itemsProp") = .ok itemsProp ∧
        origin = .url descriptor itemsProp) ∨
    (∃ text, ms.get? "url" = none ∧ ms.get? "expr" = some (.str text) ∧ origin = .expr text) := by
  unfold ofMembers at h
  split at h
  · rename_i fetched hread
    cases h
    obtain ⟨descriptor, hurl, hrest⟩ := bind_eq_ok_iff.1 hread
    obtain ⟨itemsProp, hprop, hrest⟩ := bind_eq_ok_iff.1 hrest
    cases hrest
    obtain ⟨url, hget, hdescriptor⟩ := required_eq_ok_iff.1 hurl
    exact Or.inl ⟨url, descriptor, itemsProp, hget, hdescriptor, hprop, rfl⟩
  · rename_i hread
    cases h
    obtain ⟨text, htext, hrest⟩ := bind_eq_ok_iff.1 hread
    cases hrest
    obtain ⟨v, hget, hstring⟩ := required_eq_ok_iff.1 htext
    obtain rfl := str_of_string hstring
    have hnone : ms.get? "url" = none :=
      hone.resolve_right (fun hexpr => by rw [hget] at hexpr; cases hexpr)
    exact Or.inr ⟨text, hnone, hget, rfl⟩
  · cases h

/-- Whatever is read as an item source is one in canonical form, if it has one origin only. -/
theorem ItemSource.toJson_of_ofJson {ms : Members} {s : ItemSource}
    (h : ofJson (.obj ms) = .ok s) (hone : ms.get? "url" = none ∨ ms.get? "expr" = none) :
    s.toJson = form Descriptor.canonical (.obj ms) := by
  obtain ⟨_, -, h⟩ := bind_eq_ok_iff.1 h
  obtain ⟨origin, horigin, h⟩ := bind_eq_ok_iff.1 h
  obtain ⟨itemKey, hkey, h⟩ := bind_eq_ok_iff.1 h
  obtain ⟨itemTitle, htitle, h⟩ := bind_eq_ok_iff.1 h
  cases h
  rw [toJson, optionalMember_of_string hkey, optionalMember_of_string htitle, form, Json.get?]
  obtain ⟨url, descriptor, itemsProp, hurl, hread, hprop, rfl⟩ | ⟨text, hurl, htext, rfl⟩ :=
    ItemOrigin.read_of_ofMembers horigin hone
  · have hnull : url ≠ .null := by
      rintro rfl
      cases hread
    simp [hurl, ItemOrigin.toMembers, Descriptor.toJson_of_ofJson hread,
      optionalMember_of_string hprop, optionalMember_present? hurl hnull, Json.byFields]
  · simp [hurl, ItemOrigin.toMembers, optionalMember_present? htext, Json.byFields]

/-- What the fields of a layout were read from. -/
structure LayoutNode.ReadFrom (fields : Members) (node : LayoutNode) : Prop where
  comp : optional string (fields.get? "comp") = .ok node.comp
  getItems : optional ItemSource.ofJson (fields.get? "getItems") = .ok node.getItems
  label : optional string (fields.get? "label") = .ok node.label
  cond : optional Descriptor.ofJson (fields.get? "cond") = .ok node.cond
  itemTitle : optional string (fields.get? "itemTitle") = .ok node.itemTitle
  itemKey : optional string (fields.get? "itemKey") = .ok node.itemKey
  props : optional object (fields.get? "props") = .ok node.props
  cols : optional any (fields.get? "cols") = .ok node.cols

namespace LayoutNode

variable {fields : Members} {node : LayoutNode}

/-- A layout is read from the members that its value names. -/
theorem exists_readFrom_of_ofJson {v : Json} (h : ofJson v = .ok node) :
    ∃ ms : Members, v.named record.fields = .obj ms ∧ ReadFrom ms node := by
  obtain ⟨missing, ms, hms, hbuild⟩ := Record.build_of_read h
  obtain ⟨comp, hcomp, hbuild⟩ := bind_eq_ok_iff.1 hbuild
  obtain ⟨getItems, hsource, hbuild⟩ := bind_eq_ok_iff.1 hbuild
  obtain ⟨label, hlabel, hbuild⟩ := bind_eq_ok_iff.1 hbuild
  obtain ⟨cond, hcond, hbuild⟩ := bind_eq_ok_iff.1 hbuild
  obtain ⟨itemTitle, htitle, hbuild⟩ := bind_eq_ok_iff.1 hbuild
  obtain ⟨itemKey, hkey, hbuild⟩ := bind_eq_ok_iff.1 hbuild
  obtain ⟨props, hprops, hbuild⟩ := bind_eq_ok_iff.1 hbuild
  obtain ⟨cols, hcols, hbuild⟩ := bind_eq_ok_iff.1 hbuild
  cases hbuild
  exact ⟨ms, hms, hcomp, hsource, hlabel, hcond, htitle, hkey, hprops, hcols⟩

theorem readFrom_of_ofJson (h : ofJson (.obj fields) = .ok node) : ReadFrom fields node := by
  obtain ⟨ms, hms, hfrom⟩ := exists_readFrom_of_ofJson h
  cases hms
  exact hfrom

/-- Whatever object is read as a layout is one in canonical form, if its item source has one origin
    only. -/
theorem toJson_of_ofJson (h : ofJson (.obj fields) = .ok node)
    (hone : ∀ source, fields.get? "getItems" = some (.obj source) →
      Members.get? source "url" = none ∨ Members.get? source "expr" = none) :
    node.toJson = form Descriptor.canonical (.obj fields) := by
  have hfrom := readFrom_of_ofJson h
  have hsource : optionalMember "getItems" ItemSource.toJson node.getItems
      = optionalMember "getItems" (ItemSource.form Descriptor.canonical)
        (fields.present? "getItems") := by
    apply optionalMember_of_optional hfrom.getItems
    intro v s hget hread
    cases v with
    | obj source => exact ItemSource.toJson_of_ofJson hread (hone source hget)
    | null | bool | num | str | arr => cases hread
  have hcond : optionalMember "cond" Descriptor.toJson node.cond
      = optionalMember "cond" Descriptor.canonical (fields.present? "cond") :=
    optionalMember_of_optional hfrom.cond (fun _ _ _ => Descriptor.toJson_of_ofJson)
  have hprops : optionalMember "props" .obj node.props
      = optionalMember "props" id (fields.present? "props") :=
    optionalMember_of_optional hfrom.props (fun _ _ _ => obj_of_object)
  have hcols : optionalMember "cols" id node.cols
      = optionalMember "cols" id (fields.present? "cols") :=
    optionalMember_of_optional hfrom.cols (fun _ _ _ hread => (Except.ok.inj hread).symm)
  rw [toJson, hsource, hcond, hprops, hcols, optionalMember_of_string hfrom.comp,
    optionalMember_of_string hfrom.label, optionalMember_of_string hfrom.itemTitle,
    optionalMember_of_string hfrom.itemKey]
  simp [form, Json.byFields]

example : form Descriptor.canonical (.obj [("note", .null), ("cond", .arr [.str "a", .null]),
    ("label", .null), ("comp", .str "card")])
      = .obj [("comp", .str "card"), ("cond", .obj [("expr", .str "a")])] := by decide

end LayoutNode

end Relayout
