/-
  Relayout/Proofs/Layout/Codec.lean
  =================================
  **A layout that is written is read back.**

  Each layout type is written as an object whose members are optional, and the members are
  checked one by one and then looked up by their keys.  So a written value passes the check if
  each member that is there does (`checkMembers_append_iff`, `checkMembers_optionalMember`), and
  what is looked up is what was written (`get?_optionalMember`, `optional_map`).  The one value
  that is not read back is a width that is null, which reads as no width.
-/
import Relayout.Layout.Codec
import Relayout.Proofs.Json.Place
import Relayout.Proofs.Outcome

namespace Relayout

/-! ### Optional members -/

@[simp] theorem get?_optionalMember {α : Type} (key name : String) (write : α → Json)
    (v : Option α) :
    Members.get? (optionalMember key write v) name
      = if key = name then v.map write else none := by
  cases v <;> simp [optionalMember, Members.get?]

@[simp] theorem keys_optionalMember {α : Type} (key : String) (write : α → Json) (v : Option α) :
    Members.keys (optionalMember key write v) = if v.isSome then [key] else [] := by
  cases v <;> rfl

namespace Decode

/-- Members pass a check together if each part does. -/
theorem checkMembers_append_iff {field : String → Json → Except DecodeError Unit}
    {ms ns : Members} :
    checkMembers field (ms ++ ns) = .ok () ↔
      checkMembers field ms = .ok () ∧ checkMembers field ns = .ok () := by
  induction ms with
  | nil => simp [checkMembers]
  | cons m ms ih =>
    obtain ⟨k, v⟩ := m
    rw [List.cons_append, checkMembers, checkMembers]
    cases field k v with
    | ok _ => exact ih
    | error e => simp

theorem checkMembers_cons_iff {field : String → Json → Except DecodeError Unit}
    {key : String} {v : Json} {ms : Members} :
    checkMembers field ((key, v) :: ms) = .ok () ↔
      field key v = .ok () ∧ checkMembers field ms = .ok () := by
  rw [checkMembers]
  cases field key v <;> simp

theorem checkMembers_optionalMember {α : Type} {field : String → Json → Except DecodeError Unit}
    {key : String} {write : α → Json} {v : Option α} (h : ∀ a, field key (write a) = .ok ()) :
    checkMembers field (optionalMember key write v) = .ok () := by
  cases v with
  | none => rfl
  | some a => exact checkMembers_cons_iff.2 ⟨h a, rfl⟩

/-- What is optional is read back if what is there is, and is not written as null. -/
theorem optional_map {α : Type} {read : Json → Except DecodeError α} {write : α → Json}
    {v : Option α} (hread : ∀ a, v = some a → read (write a) = .ok a)
    (hnull : ∀ a, v = some a → write a ≠ .null) : optional read (v.map write) = .ok v := by
  cases v with
  | none => rfl
  | some a =>
    rw [Option.map_some, optional, hread a rfl]
    · rfl
    · exact fun h => hnull a rfl h

/-- What can be read passes a check. -/
theorem check_optional {α : Type} {read : Json → Except DecodeError α} {v : Json} {a : α}
    (h : read v = .ok a) : check (optional read) v = .ok () := by
  cases v <;> simp [check, optional, h, Except.map]

theorem string_str (s : String) : string (.str s) = .ok s := rfl

theorem check_string (s : String) : check (optional string) (.str s) = .ok () := rfl

theorem optional_string (v : Option String) : optional string (v.map .str) = .ok v :=
  optional_map (fun a _ => string_str a) nofun

end Decode

open Decode

/-! ### Descriptors -/

theorem ExprType.ofJson_toJson (t : ExprType) : ofJson t.toJson = .ok t := by
  cases t <;> rfl

namespace Descriptor

theorem ofJson_toJson (d : Descriptor) : ofJson d.toJson = .ok d := by
  have hfields : checkMembers record.field (("expr", .str d.expr) ::
      (optionalMember "type" ExprType.toJson d.type ++ optionalMember "pure" .bool d.pure))
        = .ok () :=
    checkMembers_cons_iff.2 ⟨rfl, checkMembers_append_iff.2
      ⟨checkMembers_optionalMember (fun t => check_optional t.ofJson_toJson),
        checkMembers_optionalMember (fun _ => rfl)⟩⟩
  have htype : optional ExprType.ofJson (d.type.map ExprType.toJson) = .ok d.type :=
    optional_map (fun t _ => t.ofJson_toJson) nofun
  have hpure : optional boolean (d.pure.map Json.bool) = .ok d.pure :=
    optional_map (fun _ _ => rfl) nofun
  rw [ofJson, toJson, Record.read, Record.ofMembers, hfields]
  simp [record, Members.get?, Members.get?_append, required, string_str, htype, hpure, bind,
    Except.bind]
  rfl

end Descriptor

/-! ### Item sources -/

/-- An origin is read back whatever stands after it under keys that origins do not have. -/
theorem ItemOrigin.ofMembers_toMembers (origin : ItemOrigin) {rest : Members}
    (hrest : ∀ key ∈ ["url", "itemsProp", "expr"], rest.get? key = none) :
    ofMembers (origin.toMembers ++ rest) = .ok origin := by
  have hurl := hrest "url" (by simp)
  have hprop := hrest "itemsProp" (by simp)
  cases origin with
  | url descriptor itemsProp =>
    simp [ofMembers, urlOfMembers, toMembers, Members.get?, Members.get?_append, hprop, required,
      descriptor.ofJson_toJson, optional_string, bind, Except.bind, pure, Except.pure]
  | expr text =>
    simp [ofMembers, urlOfMembers, exprOfMembers, toMembers, Members.get?, hurl, required,
      string_str, bind, Except.bind, pure, Except.pure]

namespace ItemSource

/-- What is written for an origin has no key of the fields beside it. -/
theorem checkMembers_toMembers (origin : ItemOrigin) :
    checkMembers checkField origin.toMembers = .ok () := by
  cases origin with
  | url descriptor itemsProp =>
    exact checkMembers_cons_iff.2 ⟨rfl, checkMembers_optionalMember (fun _ => rfl)⟩
  | expr text => rfl

theorem get?_toMembers_eq_none (origin : ItemOrigin) {key : String}
    (h : key ∉ ["url", "itemsProp", "expr"]) : origin.toMembers.get? key = none := by
  simp only [List.mem_cons, List.not_mem_nil, or_false, not_or] at h
  obtain ⟨hurl, hprop, hexpr⟩ := h
  cases origin with
  | url descriptor itemsProp =>
    simp [ItemOrigin.toMembers, Members.get?, Ne.symm hurl, Ne.symm hprop]
  | expr text => simp [ItemOrigin.toMembers, Members.get?, Ne.symm hexpr]

theorem ofJson_toJson (s : ItemSource) : ofJson s.toJson = .ok s := by
  have hfields : checkMembers checkField (s.origin.toMembers ++
      optionalMember "itemKey" .str s.itemKey ++ optionalMember "itemTitle" .str s.itemTitle)
        = .ok () :=
    checkMembers_append_iff.2 ⟨checkMembers_append_iff.2 ⟨checkMembers_toMembers s.origin,
      checkMembers_optionalMember (fun _ => rfl)⟩, checkMembers_optionalMember (fun _ => rfl)⟩
  have horigin : ItemOrigin.ofMembers (s.origin.toMembers ++
      (optionalMember "itemKey" .str s.itemKey ++ optionalMember "itemTitle" .str s.itemTitle))
        = .ok s.origin := by
    apply s.origin.ofMembers_toMembers
    simp [Members.get?_append]
  have hkey := get?_toMembers_eq_none s.origin
    (by decide : "itemKey" ∉ ["url", "itemsProp", "expr"])
  have htitle :=
    get?_toMembers_eq_none s.origin (by decide : "itemTitle" ∉ ["url", "itemsProp", "expr"])
  rw [toJson, ofJson, hfields, List.append_assoc, horigin]
  simp [Members.get?_append, hkey, htitle, optional_string, bind, Except.bind, pure, Except.pure]

end ItemSource

/-! ### Layouts -/

/-- A layout is read back, unless its width is null. -/
theorem LayoutNode.ofJson_toJson {node : LayoutNode} (hcols : node.cols ≠ some .null) :
    ofJson node.toJson = .ok node := by
  have hsource : optional ItemSource.ofJson (node.getItems.map ItemSource.toJson)
      = .ok node.getItems := optional_map (fun s _ => s.ofJson_toJson) nofun
  have hcond : optional Descriptor.ofJson (node.cond.map Descriptor.toJson) = .ok node.cond :=
    optional_map (fun d _ => d.ofJson_toJson) nofun
  have hprops : optional object (node.props.map Json.obj) = .ok node.props :=
    optional_map (fun _ _ => rfl) nofun
  have hwidth : optional any node.cols = .ok node.cols := by
    have hmap : optional any (node.cols.map id) = .ok node.cols := by
      apply optional_map (fun _ _ => rfl)
      rintro v hv rfl
      exact hcols hv
    simpa using hmap
  have hfields : ∀ ms, node.toJson = .obj ms → checkMembers record.field ms = .ok () := by
    rintro _ ⟨⟩
    simp only [checkMembers_append_iff]
    refine ⟨⟨⟨⟨⟨⟨⟨?_, ?_⟩, ?_⟩, ?_⟩, ?_⟩, ?_⟩, ?_⟩, ?_⟩ <;> apply checkMembers_optionalMember
    · exact fun s => check_string s
    · exact fun s => check_optional s.ofJson_toJson
    · exact fun s => check_string s
    · exact fun d => check_optional d.ofJson_toJson
    · exact fun s => check_string s
    · exact fun s => check_string s
    · exact fun _ => rfl
    · exact fun _ => rfl
  have hchecked := hfields _ rfl
  rw [ofJson, toJson, Record.read, Record.ofMembers, hchecked]
  simp [record, Members.get?_append, optional_string, hsource, hcond, hprops, hwidth, bind,
    Except.bind, pure, Except.pure]

end Relayout
