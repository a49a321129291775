/-
  Relayout/Proofs/Draft07/Faults.lean
  ===================================
  **A migration adds no faults to a schema that can be used.**

  A value has no fault in its identities exactly if each part has none for its base, and no
  fault in what takes effect exactly if that holds of each value that takes effect
  (`schemaFault?_eq_none_iff`).  What a walk leaves of a value keeps the identities, the
  references and the kinds of the values that decide which keywords take effect together
  (`Yields.together_eq`); and the layouts and labels that it adds declare no identity and have no
  keyword.  So where there was no fault there is none (`Yields.identityFault?_eq_none`,
  `Yields.fault?_eq_none`).
-/
import Relayout.Draft07.Compilation
import Relayout.Proofs.Migration.Settled
import Relayout.Proofs.Migration.Yield

namespace Relayout

namespace Draft07

/-! ### Identities -/

theorem memberIdentityFault?_eq_none_iff {base : Url} {ms : Members} :
    memberIdentityFault? base ms = none ↔
      ∀ m ∈ ms, m.1 ≠ "enum" → m.1 ≠ "const" → identityFault? base m.2 = none := by
  induction ms with
  | nil => simp [memberIdentityFault?]
  | cons m ms ih =>
    obtain ⟨k, v⟩ := m
    rw [memberIdentityFault?, List.forall_mem_cons, ← ih]
    by_cases hk : k = "enum" ∨ k = "const"
    · rw [if_pos (by simpa using hk)]
      simp only [iff_and_self]
      intro _ henum hconst
      exact absurd hk (not_or.2 ⟨henum, hconst⟩)
    · rw [if_neg (by simpa using hk), Option.or_eq_none_iff]
      obtain ⟨henum, hconst⟩ := not_or.1 hk
      exact and_congr_left' ⟨fun h _ _ => h, fun h => h henum hconst⟩

theorem elementIdentityFault?_eq_none_iff {base : Url} {xs : List Json} :
    elementIdentityFault? base xs = none ↔ ∀ x ∈ xs, identityFault? base x = none := by
  induction xs with
  | nil => simp [elementIdentityFault?]
  | cons x xs ih =>
    rw [elementIdentityFault?, Option.or_eq_none_iff, ih, List.forall_mem_cons]

theorem identityFault?_obj_eq_none_iff {base : Url} {ms : Members} :
    identityFault? base (.obj ms) = none ↔
      ∃ inner, innerBase base ms = .ok inner ∧ memberIdentityFault? inner ms = none := by
  rw [identityFault?]
  cases innerBase base ms <;> simp

/-- Without an identity of its own an object has the base around it. -/
theorem innerBase_of_not_mem {ms : Members} (h : "$id" ∉ ms.keys) (base : Url) :
    innerBase base ms = .ok base := by
  rw [innerBase, identity?, (Members.get?_eq_none_iff ms "$id").2 h]
  rfl

/-- There is no fault in an object without an identity if there is none in its members. -/
theorem identityFault?_obj_eq_none {base : Url} {ms : Members} (hid : "$id" ∉ ms.keys)
    (hms : ∀ m ∈ ms, identityFault? base m.2 = none) : identityFault? base (.obj ms) = none :=
  identityFault?_obj_eq_none_iff.2 ⟨base, innerBase_of_not_mem hid base,
    memberIdentityFault?_eq_none_iff.2 (fun m hm _ _ => hms m hm)⟩

/-! ### What takes effect -/

theorem lookup_memberFaults (base : Url) (p : Pointer) (ms : Members) (key : String) :
    (memberFaults base p ms).lookup key
      = (ms.get? key).map (fault? base (slot key) (p.member key)) :=
  Members.lookup_eq_map_get? (memberFaults base p)
    (fun key => fault? base (slot key) (p.member key)) rfl (fun _ _ _ => rfl) ms key

/-- Every value that takes effect in an object is without fault. -/
theorem firstFault?_eq_none_iff {base : Url} {p : Pointer} {ms : Members} :
    firstFault? ms (memberFaults base p ms) = none ↔
      ∀ key ∈ ms.keys, ∀ k ∈ together ms key, ∀ v, ms.get? k = some v →
        fault? base (slot k) (p.member k) v = none := by
  rw [firstFault?, List.findSome?_eq_none_iff, List.forall_mem_flatMap]
  refine forall₂_congr (fun key _ => forall₂_congr (fun k _ => ?_))
  rw [lookup_memberFaults]
  cases ms.get? k <;> simp

/-- A schema is without fault if its identity is a URL and, with a reference, that is one too,
    or without one, every value that takes effect is without fault. -/
theorem schemaFault?_eq_none_iff {base : Url} {p : Pointer} {ms : Members} :
    schemaFault? base ms (memberFaults · p ms) = none ↔
      ∃ inner, innerBase base ms = .ok inner ∧
        (∀ ref, ms.text? "$ref" = some ref → ∃ url, Url.parse (some inner) ref = .ok url) ∧
        (ms.text? "$ref" = none → firstFault? ms (memberFaults inner p ms) = none) := by
  rw [schemaFault?]
  cases innerBase base ms with
  | error e => simp
  | ok inner =>
    simp only [Except.ok.injEq, exists_eq_left']
    split
    · rename_i ref href
      have htext : ms.text? "$ref" = some ref := by rw [Members.text?, href]; rfl
      cases hparse : Url.parse (some inner) ref <;> simp [htext, hparse]
    · rename_i hnot
      have htext : ms.text? "$ref" = none := by
        cases htext : ms.text? "$ref" with
        | none => rfl
        | some ref => exact absurd (Members.get?_eq_of_text?_eq_some htext) (hnot ref)
      simp [htext]

theorem entryFault?_eq_none_iff {base : Url} {p : Pointer} {ms : Members} :
    entryFault? base p ms = none ↔ ∀ m ∈ ms, fault? base .schema (p.member m.1) m.2 = none := by
  induction ms with
  | nil => simp [entryFault?]
  | cons m ms ih =>
    rw [entryFault?, Option.or_eq_none_iff, ih, List.forall_mem_cons]

theorem patternFault?_eq_none_iff {base : Url} {p : Pointer} {ms : Members} :
    patternFault? base p ms = none ↔
      ∀ m ∈ ms, Pattern.isValid m.1.toList = true ∧
        fault? base .schema (p.member m.1) m.2 = none := by
  induction ms with
  | nil => simp [patternFault?]
  | cons m ms ih =>
    rw [patternFault?, List.forall_mem_cons, ← ih]
    split
    · rename_i hvalid
      rw [Option.or_eq_none_iff]
      simp [hvalid]
    · rename_i hvalid
      simp [hvalid]

/-- Elements are without fault if those are that they are related to one by one. -/
theorem elementFault?_eq_none_of_forall₂ {R : Json → Json → Prop} {base : Url} {p : Pointer}
    {xs ys : List Json} (h : List.Forall₂ R xs ys)
    (hR : ∀ x ∈ xs, ∀ y, R x y → ∀ q, fault? base .schema q x = none →
      fault? base .schema q y = none)
    {i : Nat} (hxs : elementFault? base p i xs = none) : elementFault? base p i ys = none := by
  induction h generalizing i with
  | nil => rfl
  | cons hhead _ ih =>
    obtain ⟨hx, hrest⟩ := List.forall_mem_cons.1 hR
    rw [elementFault?, Option.or_eq_none_iff] at hxs ⊢
    exact ⟨hx _ hhead _ hxs.1, ih hrest hxs.2⟩

/-! ### Layouts and labels -/

/-- Keys of layouts are no keywords: they take effect alone, if at all, and hold nothing. -/
theorem together_of_mem_keys {key : String} (h : key ∈ LayoutNode.keys) (ms : Members) :
    together ms key = [key] ∧ slot key = .nothing := by
  simp only [LayoutNode.keys, List.mem_cons, List.not_mem_nil, or_false] at h
  rcases h with rfl | rfl | rfl | rfl | rfl | rfl | rfl | rfl <;> exact ⟨rfl, rfl⟩

/-- Nothing takes effect in an object with keys of layouts only. -/
theorem fault?_eq_none_of_inert {v : Json} (h : v.shape.Inert) (base : Url) (p : Pointer) :
    fault? base .schema p v = none := by
  cases v with
  | obj ms =>
    have hkeys : Members.keys ms ⊆ LayoutNode.keys := h _ rfl
    have hid : "$id" ∉ Members.keys ms := fun hmem => absurd (hkeys hmem) (by decide)
    have href : "$ref" ∉ Members.keys ms := fun hmem => absurd (hkeys hmem) (by decide)
    rw [fault?, schemaFault?_eq_none_iff]
    refine ⟨base, innerBase_of_not_mem hid base, ?_, fun _ => ?_⟩
    · intro ref htext
      rw [Members.text?, (Members.get?_eq_none_iff ms "$ref").2 href] at htext
      cases htext
    · rw [firstFault?_eq_none_iff]
      intro key hkey k hk v _
      obtain ⟨halone, hslot⟩ := together_of_mem_keys (hkeys hkey) ms
      rw [halone, List.mem_singleton] at hk
      subst hk
      rw [hslot]
      cases v <;> rfl
  | null | bool | num | str | arr => rfl

theorem identityFault?_descriptor (base : Url) (d : Descriptor) :
    identityFault? base d.toJson = none := by
  obtain ⟨expr, type, isPure⟩ := d
  apply identityFault?_obj_eq_none
  · cases type <;> cases isPure <;> simp [optionalMember, Members.keys]
  · cases type <;> cases isPure <;>
      simp [optionalMember, identityFault?, ExprType.toJson]

theorem identityFault?_itemSource (base : Url) (s : ItemSource) :
    identityFault? base s.toJson = none := by
  obtain ⟨origin, itemKey, itemTitle⟩ := s
  apply identityFault?_obj_eq_none
  · cases origin with
    | url url itemsProp =>
      cases itemsProp <;> cases itemKey <;> cases itemTitle <;>
        simp [ItemOrigin.toMembers, optionalMember, Members.keys]
    | expr expr =>
      cases itemKey <;> cases itemTitle <;>
        simp [ItemOrigin.toMembers, optionalMember, Members.keys]
  · cases origin with
    | url url itemsProp =>
      cases itemsProp <;> cases itemKey <;> cases itemTitle <;>
        simp [ItemOrigin.toMembers, optionalMember, identityFault?_descriptor, identityFault?]
    | expr expr =>
      cases itemKey <;> cases itemTitle <;>
        simp [ItemOrigin.toMembers, optionalMember, identityFault?]

/-- There is no fault in the layout of a node if there is none in what it holds of the node. -/
theorem identityFault?_layout {base : Url} {s : Site}
    (hnode : memberIdentityFault? base s.node = none) {node : LayoutNode}
    (h : node.DrawnFrom s) : identityFault? base node.toJson = none := by
  rw [memberIdentityFault?_eq_none_iff] at hnode
  obtain ⟨ms, hms, hkeys⟩ := node.exists_toJson_eq
  rw [hms]
  refine identityFault?_obj_eq_none (fun hmem => absurd (hkeys.subset hmem) (by decide))
    (fun m hm => ?_)
  rcases LayoutNode.value_cases hms hm with
    ⟨s, hs⟩ | ⟨d, hd⟩ | ⟨s, hs⟩ | ⟨props, hprops, hvalue⟩ | hcols
  · rw [hs]
    rfl
  · exact hd ▸ identityFault?_descriptor base d
  · exact hs ▸ identityFault?_itemSource base s
  · have hmem := Members.mem_of_get?_eq_some (h.props props hprops)
    exact hvalue ▸ hnode _ hmem (by simp) (by simp)
  · have hmem := Members.mem_of_get?_eq_some (h.cols m.2 hcols).1
    exact hnode ("x-cols", m.2) hmem (by simp) (by simp)

end Draft07

open Draft07

namespace Dialect

variable {d : Dialect} {ms ns : Members}

/-- What an object gains is inert. -/
theorem Gained.inert {n : String × Json} (h : d.Gained ms n) : n.2.shape.Inert := by
  rcases h.2 with ⟨layout, -, rfl⟩ | ⟨label, rfl⟩
  · exact inert_toJson_layout layout
  · exact inert_toJson_oneOfLayout ⟨label⟩

theorem Gained.slot_eq {n : String × Json} (h : d.Gained ms n) : slot n.1 = .nothing := by
  have hslots : ∀ key ∈ ["layout", "oneOfLayout"], slot key = .nothing := by decide
  exact hslots n.1 h.key_mem

theorem Gained.together_eq {n : String × Json} (h : d.Gained ms n) (node : Members) :
    together node n.1 = [n.1] := by
  have hkey := h.key_mem
  simp only [List.mem_cons, List.not_mem_nil, or_false] at hkey
  rcases hkey with heq | heq <;> rw [heq] <;> rfl

/-- What an object gains it gains under a key that is a plain pattern. -/
theorem Gained.isValid_key {n : String × Json} (h : d.Gained ms n) :
    Pattern.isValid n.1.toList = true := by
  have hkeys : ∀ key ∈ ["layout", "oneOfLayout"], Pattern.isValid key.toList = true := by
    decide +kernel
  exact hkeys n.1 h.key_mem

theorem Gained.identityFault?_eq_none {base : Url} (hms : memberIdentityFault? base ms = none)
    {n : String × Json} (h : d.Gained ms n) : identityFault? base n.2 = none := by
  rcases h.2 with ⟨layout, hlayout, rfl⟩ | ⟨label, rfl⟩
  · obtain ⟨node, hdrawn, hfinal⟩ := Table.drawnFrom_of_layout? hlayout
    rcases LayoutNode.of_finalize_eq_some hfinal with ⟨comp, -, rfl⟩ | rfl
    · rfl
    · exact identityFault?_layout hms hdrawn
  · apply identityFault?_obj_eq_none
    · simp [Members.keys]
    · simp [identityFault?]

namespace Yields

/-! ### What a walk leaves -/

/-- A text under a keyword stays. -/
theorem text?_eq (h : d.Yields (.obj ms) (.obj ns)) {key : String}
    (hbuiltin : key ∉ Table.builtin.recognizedKeys) (hadded : key ∉ ["layout", "oneOfLayout"]) :
    ns.text? key = ms.text? key := by
  unfold Members.text?
  rcases h.keyword_cases key hbuiltin hadded with ⟨ha, hb⟩ | ⟨a, b, ha, hb, hyields⟩
  · rw [ha, hb]
  · rw [ha, hb]
    exact hyields.asString?_eq

theorem innerBase_eq (h : d.Yields (.obj ms) (.obj ns)) (base : Url) :
    innerBase base ns = innerBase base ms := by
  have hid : identity? ns = identity? ms := h.text?_eq (by decide) (by decide)
  rw [innerBase, innerBase, hid]

/-- Where the identities were without fault, they are. -/
theorem identityFault?_eq_none {v w : Json} (h : d.Yields v w) {base : Url}
    (hv : identityFault? base v = none) : identityFault? base w = none := by
  induction v using Json.induction_on generalizing w base with
  | null | bool | num | str =>
    cases h
    exact hv
  | arr xs ih =>
    cases h with
    | arr hxs =>
      rw [identityFault?, elementIdentityFault?_eq_none_iff] at hv ⊢
      intro y hy
      obtain ⟨x, hx, hyields⟩ := exists_of_forall₂ hxs hy
      exact ih x hx hyields (hv x hx)
  | obj ms ih =>
    obtain ⟨ns, rfl⟩ := h.exists_obj
    obtain ⟨inner, hinner, hms⟩ := identityFault?_obj_eq_none_iff.1 hv
    refine identityFault?_obj_eq_none_iff.2 ⟨inner, (h.innerBase_eq base).trans hinner, ?_⟩
    rw [memberIdentityFault?_eq_none_iff]
    intro n hn henum hconst
    rcases h.mem_cases hn with ⟨a, ha, hyields⟩ | hgained
    · exact ih _ ha hyields (memberIdentityFault?_eq_none_iff.1 hms _ ha henum hconst)
    · exact hgained.identityFault?_eq_none hms

theorem has_eq (h : d.Yields (.obj ms) (.obj ns)) {key : String}
    (hbuiltin : key ∉ Table.builtin.recognizedKeys) (hadded : key ∉ ["layout", "oneOfLayout"]) :
    ns.has key = ms.has key := by
  apply Members.has_congr
  rw [← not_iff_not, ← Members.get?_eq_none_iff, ← Members.get?_eq_none_iff]
  rcases h.keyword_cases key hbuiltin hadded with ⟨ha, hb⟩ | ⟨a, b, ha, hb, -⟩
  · simp [ha, hb]
  · simp [ha, hb]

/-- The same keywords take effect together. -/
theorem together_eq (h : d.Yields (.obj ms) (.obj ns)) : together ns = together ms := by
  funext key
  have hpatterns : ns.has "patternProperties" = ms.has "patternProperties" :=
    h.has_eq (by decide) (by decide)
  have hthen : ns.has "then" = ms.has "then" := h.has_eq (by decide) (by decide)
  have helse : ns.has "else" = ms.has "else" := h.has_eq (by decide) (by decide)
  have hitems : together ns "additionalItems" = together ms "additionalItems" := by
    rcases h.keyword_cases "items" (by decide) (by decide) with ⟨ha, hb⟩ | ⟨a, b, ha, hb, hyields⟩
    · simp [together, ha, hb]
    · cases hyields <;> simp [together, ha, hb]
  have hadditional : together ns "properties" = together ms "properties" ∧
      together ns "patternProperties" = together ms "patternProperties" ∧
      together ns "additionalProperties" = together ms "additionalProperties" := by
    rcases h.keyword_cases "additionalProperties" (by decide) (by decide) with
      ⟨ha, hb⟩ | ⟨a, b, ha, hb, hyields⟩
    · simp [together, ha, hb]
    · cases hyields <;> simp [together, ha, hb, hpatterns]
  have hif : together ns "if" = together ms "if" := by simp [together, hthen, helse]
  by_cases hkey : key = "properties" ∨ key = "patternProperties" ∨ key = "additionalProperties" ∨
    key = "additionalItems" ∨ key = "if" ∨ key = "then" ∨ key = "else"
  · rcases hkey with rfl | rfl | rfl | rfl | rfl | rfl | rfl
    · exact hadditional.1
    · exact hadditional.2.1
    · exact hadditional.2.2
    · exact hitems
    · exact hif
    · rfl
    · rfl
  · simp only [not_or] at hkey
    simp [together, hkey]

/-- Where there was no fault in what takes effect, there is none. -/
theorem fault?_eq_none {v w : Json} (h : d.Yields v w) {base : Url} {slot : Slot} {p : Pointer}
    (hv : fault? base slot p v = none) : fault? base slot p w = none := by
  induction v using Json.induction_on generalizing w base slot p with
  | null | bool | num | str =>
    cases h
    exact hv
  | arr xs ih =>
    cases h with
    | @arr _ ys hxs =>
      have helements (hxsFault : elementFault? base p 0 xs = none) :
          elementFault? base p 0 ys = none :=
        elementFault?_eq_none_of_forall₂ hxs (fun x hx _ hyields _ => ih x hx hyields) hxsFault
      cases slot with
      | schemaList => exact helements hv
      | schemaOrList => exact helements hv
      | schema | schemaMap | patternMap | limit | nothing => rfl
  | obj ms ih =>
    obtain ⟨ns, rfl⟩ := h.exists_obj
    have hschema (hms : schemaFault? base ms (memberFaults · p ms) = none) :
        schemaFault? base ns (memberFaults · p ns) = none := by
      obtain ⟨inner, hinner, href, hfirst⟩ := schemaFault?_eq_none_iff.1 hms
      have htext : Members.text? ns "$ref" = Members.text? ms "$ref" :=
        h.text?_eq (by decide) (by decide)
      refine schemaFault?_eq_none_iff.2
        ⟨inner, (h.innerBase_eq base).trans hinner, htext ▸ href, fun hnone => ?_⟩
      have hms := firstFault?_eq_none_iff.1 (hfirst (htext ▸ hnone))
      rw [firstFault?_eq_none_iff, h.together_eq]
      intro key hkey k hk b hb
      rcases h.get?_cases hb with ⟨a, ha, hyields⟩ | hgained
      · obtain ⟨n, hn, rfl⟩ := List.mem_map.1 hkey
        rcases h.mem_cases hn with ⟨v, hv, -⟩ | hgainedKey
        · exact ih _ (Members.mem_of_get?_eq_some ha) hyields
            (hms _ (List.mem_map_of_mem hv) k hk a ha)
        · -- a key that was gained takes effect alone, and it is not the key of a member
          rw [hgainedKey.together_eq, List.mem_singleton] at hk
          rw [hk, (Members.get?_eq_none_iff ms _).2 hgainedKey.1] at ha
          cases ha
      · rw [hgained.slot_eq]
        cases b <;> rfl
    have hentries (hms : ∀ m ∈ ms, fault? base .schema (p.member m.1) m.2 = none) :
        ∀ n ∈ ns, fault? base .schema (p.member n.1) n.2 = none := by
      intro n hn
      rcases h.mem_cases hn with ⟨a, ha, hyields⟩ | hgained
      · exact ih _ ha hyields (hms _ ha)
      · exact fault?_eq_none_of_inert hgained.inert base _
    cases slot with
    | schema => exact hschema hv
    | schemaOrList => exact hschema hv
    | schemaMap => exact entryFault?_eq_none_iff.2 (hentries (entryFault?_eq_none_iff.1 hv))
    | patternMap =>
      have hms := patternFault?_eq_none_iff.1 hv
      have hvalues := hentries (fun m hm => (hms m hm).2)
      refine patternFault?_eq_none_iff.2 (fun n hn => ⟨?_, hvalues n hn⟩)
      rcases h.mem_cases hn with ⟨a, ha, -⟩ | hgained
      · exact (hms _ ha).1
      · exact hgained.isValid_key
    | schemaList | limit | nothing => rfl

end Yields

end Dialect

end Relayout
