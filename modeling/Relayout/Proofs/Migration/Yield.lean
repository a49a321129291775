/-
  Relayout/Proofs/Migration/Yield.lean
  ====================================
  **What a walk may make of a value, member by member.**

  `Dialect.Yields` relates a value to what a walk may leave of it: every object in it either
  keeps all its members, or it was visited, and then it lost the claimed ones and gained the
  layout of its own extensions and perhaps a label.  Unlike the relations that compare values
  place by place, it tells what the layouts and labels are, and it asks nothing about repeated
  keys.  Treating a value yields it (`yields_treat`), putting migrated definitions back
  keeps to it (`Yields.replaceFrom?`), and so a walk does (`yields_walk`).
-/
import Mathlib.Data.List.Forall2
import Relayout.Proofs.Migration.WellFormed

namespace Relayout

/-- Members with the same keys in the same order, whose values are related one by one. -/
inductive Members.Related (R : Json → Json → Prop) : Members → Members → Prop where
  | nil : Related R [] []
  | cons {key : String} {v w : Json} {ms ns : Members} :
    R v w → Related R ms ns → Related R ((key, v) :: ms) ((key, w) :: ns)

/-- Each element on the right is related to one on the left. -/
theorem exists_of_forall₂ {R : Json → Json → Prop} {xs ys : List Json}
    (h : List.Forall₂ R xs ys) {y : Json} (hy : y ∈ ys) : ∃ x ∈ xs, R x y := by
  induction h with
  | nil => cases hy
  | cons hhead _ ih =>
    rcases List.mem_cons.1 hy with rfl | hrest
    · exact ⟨_, List.mem_cons_self, hhead⟩
    · obtain ⟨x, hx, hR⟩ := ih hrest
      exact ⟨x, List.mem_cons_of_mem _ hx, hR⟩

/-- What is added to an element for its label: nothing, or a label if it has none. -/
inductive Labels (ms : Members) : Members → Prop where
  | none : Labels ms []
  | some (label : String) : "oneOfLayout" ∉ ms.keys →
    Labels ms [("oneOfLayout", (OneOfLayout.mk label).toJson)]

/-- The members of a node that no rule claims. -/
def Table.unclaimed (table : Table) (ms : Members) : Members :=
  ms.filter (fun m => !table.recognizes m.1)

/-- The second value is what a walk may leave of the first. -/
inductive Dialect.Yields (d : Dialect) : Json → Json → Prop where
  | null : Yields d .null .null
  | bool (value : Bool) : Yields d (.bool value) (.bool value)
  | num (value : Number) : Yields d (.num value) (.num value)
  | str (value : String) : Yields d (.str value) (.str value)
  | arr {xs ys : List Json} : List.Forall₂ (Yields d) xs ys → Yields d (.arr xs) (.arr ys)
  /-- An object that is not visited keeps its members. -/
  | kept {ms ns : Members} :
    Members.Related (Yields d) ms ns → Yields d (.obj ms) (.obj ns)
  /-- An object that is visited loses the claimed members and gains a layout and a label. -/
  | visited {ms ns label : Members} :
    Members.Related (Yields d) (d.table.unclaimed ms) ns →
      Labels ms label → Yields d (.obj ms) (.obj (ns ++ d.layoutMember ms ++ label))

/-! ### Related members -/

namespace Members

namespace Related

variable {R : Json → Json → Prop} {ms ns : Members}

theorem keys_eq (h : Related R ms ns) : ns.keys = ms.keys := by
  induction h with
  | nil => rfl
  | cons _ _ ih =>
    simp only [keys, List.map_cons] at ih ⊢
    rw [ih]

/-- Members that are made one by one are related one by one. -/
theorem map (f : String → Json → Json) (h : ∀ m ∈ ms, R m.2 (f m.1 m.2)) :
    Related R ms (ms.map (fun m => (m.1, f m.1 m.2))) := by
  induction ms with
  | nil => exact .nil
  | cons m ms ih =>
    obtain ⟨hm, hms⟩ := List.forall_mem_cons.1 h
    exact .cons hm (ih hms)

theorem refl (h : ∀ m ∈ ms, R m.2 m.2) : Related R ms ms := by
  simpa using map (fun _ v => v) h

/-- Each member on the right is related to one on the left. -/
theorem exists_of_mem (h : Related R ms ns) {n : String × Json} (hn : n ∈ ns) :
    ∃ v, (n.1, v) ∈ ms ∧ R v n.2 := by
  induction h with
  | nil => cases hn
  | cons hvalue _ ih =>
    rcases List.mem_cons.1 hn with rfl | hrest
    · exact ⟨_, List.mem_cons_self, hvalue⟩
    · obtain ⟨v, hv, hR⟩ := ih hrest
      exact ⟨v, List.mem_cons_of_mem _ hv, hR⟩

theorem get? (h : Related R ms ns) {key : String} {w : Json} (hw : ns.get? key = some w) :
    ∃ v, ms.get? key = some v ∧ R v w := by
  induction h with
  | nil => cases hw
  | @cons k v u _ _ hvalue _ ih =>
    by_cases hk : k = key
    · simp only [Members.get?, hk, if_true, Option.some.injEq] at hw ⊢
      exact ⟨v, rfl, hw ▸ hvalue⟩
    · simp only [Members.get?, hk, if_false] at hw ⊢
      exact ih hw

/-- A member that is there can be set to anything that its value is related to. -/
theorem insert (h : Related R ms ns) {key : String} {v w : Json} (hv : ms.get? key = some v)
    (hvalue : R v w) : Related R ms (ns.insert key w) := by
  induction h with
  | nil => cases hv
  | @cons k _ _ _ _ hhead htail ih =>
    by_cases hk : k = key
    · simp only [Members.get?, hk, if_true, Option.some.injEq] at hv
      subst hv
      rw [Members.insert, if_pos hk]
      exact .cons hvalue htail
    · simp only [Members.get?, hk, if_false] at hv
      rw [Members.insert, if_neg hk]
      exact .cons hhead (ih hv)

end Related

end Members

theorem Table.get?_unclaimed (table : Table) (ms : Members) (key : String) :
    (table.unclaimed ms).get? key = if table.recognizes key then none else ms.get? key := by
  induction ms with
  | nil => simp [unclaimed, Members.get?]
  | cons m ms ih =>
    obtain ⟨k, v⟩ := m
    rw [unclaimed, List.filter_cons]
    by_cases hk : k = key
    · subst hk
      cases hclaimed : table.recognizes k with
      | true => simpa [hclaimed, unclaimed] using ih
      | false => simp [Members.get?]
    · cases hclaimed : table.recognizes k with
      | true => simpa [Members.get?, hk, unclaimed] using ih
      | false => simpa [Members.get?, hk, unclaimed] using ih

namespace Dialect

variable {d : Dialect}

theorem Yields.refl (v : Json) : d.Yields v v := by
  induction v using Json.induction_on with
  | null => exact .null
  | bool b => exact .bool b
  | num n => exact .num n
  | str s => exact .str s
  | arr xs ih => exact .arr (List.forall₂_same.2 ih)
  | obj ms ih => exact .kept (.refl ih)

/-! ### Treating a value -/

theorem migrateMembers_eq_map (d : Dialect) (ms : Members) :
    d.migrateMembers ms
      = (d.table.unclaimed ms).map (fun m => (m.1, d.migrate (Role.ofKeyword m.1) m.2)) := by
  induction ms with
  | nil => rfl
  | cons m ms ih =>
    obtain ⟨k, v⟩ := m
    cases hclaimed : d.table.recognizes k <;>
      simp [migrateMembers, Table.unclaimed, hclaimed, ih]

theorem yields_migrateSchema {ms label : Members} (hlabel : Labels ms label)
    (ih : ∀ m ∈ ms, ∀ role, d.Yields m.2 (d.migrate role m.2)) :
    d.Yields (.obj ms) (.obj (d.migrateMembers ms ++ d.layoutMember ms ++ label)) := by
  refine .visited ?_ hlabel
  rw [migrateMembers_eq_map]
  exact .map (fun key v => d.migrate (Role.ofKeyword key) v)
    (fun m hm => ih m (List.mem_filter.1 hm).1 _)

/-- The label of an element is its own if it has one. -/
theorem exists_labels_attachLabel (d : Dialect) (ms : Members) :
    ∃ label, Labels ms label ∧ attachLabel (d.migrateMembers ms ++ d.layoutMember ms)
      = d.migrateMembers ms ++ d.layoutMember ms ++ label := by
  unfold attachLabel
  cases hlabel : (labelling (d.migrateMembers ms ++ d.layoutMember ms)).label? with
  | none => exact ⟨[], .none, (List.append_nil _).symm⟩
  | some label =>
    refine ⟨_, .some label (fun hmem => ?_), rfl⟩
    have hunclaimed : d.table.recognizes "oneOfLayout" = false :=
      d.table.recognizes_eq_false (by decide)
    have hkept : Members.has (d.migrateMembers ms ++ d.layoutMember ms) "oneOfLayout" = true := by
      rw [Members.has_iff_mem_keys, Members.keys_append, keys_migrateMembers]
      exact List.mem_append_left _ (List.mem_filter.2 ⟨hmem, by simp [hunclaimed]⟩)
    rw [labelling, if_pos hkept] at hlabel
    cases hlabel

theorem yields_withLabel {v : Json} (hmigrate : d.Yields v (d.migrate .schema v))
    (ih : ∀ ms, v = .obj ms → ∀ m ∈ ms, ∀ role, d.Yields m.2 (d.migrate role m.2)) :
    d.Yields v (d.migrate .schema v).withLabel := by
  cases v with
  | obj ms =>
    obtain ⟨label, hlabel, heq⟩ := d.exists_labels_attachLabel ms
    rw [migrate, Json.withLabel, heq]
    exact yields_migrateSchema hlabel (ih ms rfl)
  | null | bool | num | str | arr => exact hmigrate

/-- A value yields what it is migrated to in a role, with or without a label. -/
theorem yields_migrate_and_withLabel (v : Json) :
    (∀ role, d.Yields v (d.migrate role v)) ∧ d.Yields v (d.migrate .schema v).withLabel := by
  induction v using Json.induction_on with
  | null => exact ⟨fun role => by cases role <;> exact .null, .null⟩
  | bool b => exact ⟨fun role => by cases role <;> exact .bool b, .bool b⟩
  | num n => exact ⟨fun role => by cases role <;> exact .num n, .num n⟩
  | str s => exact ⟨fun role => by cases role <;> exact .str s, .str s⟩
  | arr xs ih =>
    have hcopied : d.Yields (.arr xs) (.arr xs) := .refl _
    have helements : d.Yields (.arr xs) (.arr (d.migrateElements xs)) := by
      rw [migrateElements_eq_map]
      exact .arr (List.forall₂_map_right_iff.2 (List.forall₂_same.2 (fun x hx => (ih x hx).1 _)))
    refine ⟨fun role => ?_, hcopied⟩
    cases role with
    | schema | schemaMap | verbatim => exact hcopied
    | schemaList | schemaOrList => exact helements
    | labelledList =>
      rw [migrate, migrateElements_eq_map, List.map_map]
      exact .arr (List.forall₂_map_right_iff.2 (List.forall₂_same.2 (fun x hx => (ih x hx).2)))
  | obj ms ih =>
    have hmembers : ∀ m ∈ ms, ∀ role, d.Yields m.2 (d.migrate role m.2) := fun m hm => (ih m hm).1
    have hcopied : d.Yields (.obj ms) (.obj ms) := .refl _
    have hschema : d.Yields (.obj ms) (d.migrate .schema (.obj ms)) := by
      simpa [migrate] using yields_migrateSchema .none hmembers
    refine ⟨fun role => ?_, ?_⟩
    · cases role with
      | schema | schemaOrList => exact hschema
      | schemaMap =>
        rw [migrate, migrateEntries_eq_map]
        exact .kept (.map (fun _ v => d.migrate .schema v) (fun m hm => hmembers m hm .schema))
      | schemaList | labelledList | verbatim => exact hcopied
    · refine yields_withLabel hschema ?_
      rintro _ ⟨⟩
      exact hmembers

theorem yields_treat (t : Treatment) (v : Json) : d.Yields v (d.treat t v) := by
  cases t with
  | inRole role => exact (yields_migrate_and_withLabel v).1 role
  | labelled => exact (yields_migrate_and_withLabel v).2

/-! ### Putting a definition in place -/

/-- What an object gains it gains under a key that it does not have and no rule claims. -/
theorem mem_keys_gained {ms label : Members} (hlabel : Labels ms label) {key : String}
    (hkey : key ∈ (d.layoutMember ms ++ label).keys) :
    key ∉ ms.keys ∧ d.table.recognizes key = false := by
  rw [Members.keys_append, List.mem_append] at hkey
  rcases hkey with hlayoutKey | hlabelKey
  · rcases d.keys_layoutMember ms with hnone | ⟨hlayout, hnew, -⟩
    · rw [hnone] at hlayoutKey
      cases hlayoutKey
    · rw [hlayout, List.mem_singleton] at hlayoutKey
      exact hlayoutKey ▸ ⟨hnew, d.table.recognizes_eq_false (by decide)⟩
  · cases hlabel with
    | none => cases hlabelKey
    | some label hnew =>
      obtain rfl : key = "oneOfLayout" := List.mem_singleton.1 hlabelKey
      exact ⟨hnew, d.table.recognizes_eq_false (by decide)⟩

/-- A child that the value has itself, and that is left of it, is yielded by that of the value,
    and it can be set to anything else that it yields. -/
theorem Yields.setStep {v w a b : Json} (h : d.Yields v w) {segment : String}
    (ha : v.child? (Pointer.unescape segment) = some a)
    (hb : w.child? (Pointer.unescape segment) = some b) :
    d.Yields a b ∧ ∀ c, d.Yields a c → d.Yields v (w.setStep segment c) := by
  cases h with
  | null | bool | num | str => cases ha
  | @arr xs ys hxs =>
    obtain ⟨i, hi, ha⟩ := Option.bind_eq_some_iff.1 ha
    simp only [Json.child?, hi, Option.bind_some] at hb
    obtain ⟨hlt, rfl⟩ := List.getElem?_eq_some_iff.1 ha
    obtain ⟨hlt', rfl⟩ := List.getElem?_eq_some_iff.1 hb
    refine ⟨hxs.get hlt hlt', fun c hc => ?_⟩
    rw [Json.setStep, hi]
    refine .arr (List.forall₂_iff_get.2 ⟨by simp [hxs.length_eq], fun j hj hj' => ?_⟩)
    rw [List.length_set] at hj'
    by_cases hij : i = j
    · subst hij
      simpa using hc
    · simpa [List.getElem_set_ne hij] using hxs.get hj hj'
  | @kept ms ns hmembers =>
    obtain ⟨a', ha', hab⟩ := hmembers.get? hb
    obtain rfl : a = a' := Option.some.inj (ha.symm.trans ha')
    exact ⟨hab, fun c hc => .kept (hmembers.insert ha hc)⟩
  | @visited ms ns label hmembers hlabel =>
    -- what was gained has other keys, so the child is one of the members that stayed
    have hget : ms.get? (Pointer.unescape segment) = some a := ha
    have hstayed : Pointer.unescape segment ∈ Members.keys ns := by
      by_contra hnot
      have hfound := hb
      rw [Json.child?, List.append_assoc, Members.get?_append,
        (Members.get?_eq_none_iff ns _).2 hnot, Option.none_or] at hfound
      have hmem : Pointer.unescape segment ∈ (d.layoutMember ms ++ label).keys := by
        by_contra hnone
        rw [(Members.get?_eq_none_iff _ _).2 hnone] at hfound
        cases hfound
      have hnew := (mem_keys_gained hlabel hmem).1
      rw [(Members.get?_eq_none_iff ms _).2 hnew] at hget
      cases hget
    have hunclaimed : d.table.recognizes (Pointer.unescape segment) = false := by
      rw [hmembers.keys_eq, Members.keys, Table.unclaimed, List.mem_map] at hstayed
      obtain ⟨m, hm, hkey⟩ := hstayed
      simpa [hkey] using (List.mem_filter.1 hm).2
    have hkept : (d.table.unclaimed ms).get? (Pointer.unescape segment) = some a := by
      rw [Table.get?_unclaimed, hunclaimed, if_neg Bool.false_ne_true, hget]
    have hfound : ns.get? (Pointer.unescape segment) = some b := by
      rw [Json.child?, List.append_assoc, Members.get?_append] at hb
      cases hns : ns.get? (Pointer.unescape segment) with
      | none => exact absurd hstayed ((Members.get?_eq_none_iff ns _).1 hns)
      | some c => rwa [hns] at hb
    obtain ⟨a', ha', hab⟩ := hmembers.get? hfound
    obtain rfl : a = a' := Option.some.inj (hkept.symm.trans ha')
    refine ⟨hab, fun c hc => ?_⟩
    rw [Json.setStep, List.append_assoc, Members.insert_append_of_mem hstayed, ← List.append_assoc]
    exact .visited (hmembers.insert hkept hc) hlabel

/-- Putting in what the value at a pointer of the document yields keeps to the relation. -/
theorem Yields.replaceFrom? {v w w' target new : Json} {segments : List String} (h : d.Yields v w)
    (htarget : v.at? (segments.map Pointer.unescape) = some target) (hnew : d.Yields target new)
    (hreplace : Json.replaceFrom? new segments w = some w') : d.Yields v w' := by
  induction segments generalizing v w w' with
  | nil =>
    cases htarget
    cases hreplace
    exact hnew
  | cons segment segments ih =>
    obtain ⟨a, ha, hat⟩ := Option.bind_eq_some_iff.1 htarget
    obtain ⟨b, b', hb, hrest, rfl⟩ := Json.replaceFrom?_cons_eq_some hreplace
    obtain ⟨hab, hset⟩ := h.setStep ha hb
    exact hset b' (ih hab hat hrest)

theorem Yields.splice {document w : Json} (h : d.Yields document w) {arena : List (Pointer × Json)}
    (harena : ∀ entry ∈ arena, ∃ target, document.at? entry.1.place = some target ∧
      d.Yields target entry.2) : d.Yields document (splice arena w).2 := by
  induction arena generalizing w with
  | nil => exact h
  | cons entry rest ih =>
    obtain ⟨p, new⟩ := entry
    obtain ⟨⟨target, htarget, hnew⟩, hrest⟩ := List.forall_mem_cons.1 harena
    rw [Relayout.splice]
    cases hreplace : w.replace? p new with
    | none => exact ih h hrest
    | some w' => exact ih (h.replaceFrom? htarget hnew hreplace) hrest

/-- A document yields what a walk that succeeds makes of it. -/
theorem yields_walk {document : Json} {m : Migration} (h : (d.walk document).result = .ok m) :
    d.Yields document m.schema := by
  obtain ⟨arena, hschema, hkept⟩ := exists_arena_of_walk h
  rw [hschema]
  refine Yields.splice (yields_treat (.inRole .schema) document) (fun entry hentry => ?_)
  obtain ⟨ref, -, -, -, target, htarget, hvalue⟩ := hkept.2 entry (mem_byDepth.1 hentry)
  rw [hvalue]
  exact ⟨target, htarget, yields_treat (.inRole .schema) target⟩

/-! ### What is left -/

theorem Yields.asString?_eq {v w : Json} (h : d.Yields v w) : w.asString? = v.asString? := by
  cases h <;> rfl

theorem Yields.exists_obj {ms : Members} {w : Json} (h : d.Yields (.obj ms) w) :
    ∃ ns, w = .obj ns := by
  cases h with
  | kept => exact ⟨_, rfl⟩
  | visited => exact ⟨_, rfl⟩

/-- A member that an object gained: the layout of its extensions, or a label. -/
def Gained (d : Dialect) (ms : Members) (n : String × Json) : Prop :=
  n.1 ∉ ms.keys ∧
    ((∃ layout, d.table.layout? ⟨"", ms, d.detector⟩ = some layout ∧
      n = ("layout", layout.toJson)) ∨
    ∃ label, n = ("oneOfLayout", (OneOfLayout.mk label).toJson))

theorem gained_of_mem {ms label : Members} (hlabel : Labels ms label) {n : String × Json}
    (hn : n ∈ d.layoutMember ms ++ label) : d.Gained ms n := by
  refine ⟨(mem_keys_gained hlabel (List.mem_map_of_mem hn)).1, ?_⟩
  rcases List.mem_append.1 hn with hlayout | hlabelled
  · left
    unfold layoutMember at hlayout
    cases hfound : d.table.layout? ⟨"", ms, d.detector⟩ with
    | none =>
      rw [hfound] at hlayout
      cases hlayout
    | some layout =>
      rw [hfound] at hlayout
      exact ⟨layout, rfl, List.mem_singleton.1 hlayout⟩
  · right
    cases hlabel with
    | none => cases hlabelled
    | some label => exact ⟨label, List.mem_singleton.1 hlabelled⟩

theorem Gained.key_mem {ms : Members} {n : String × Json} (h : d.Gained ms n) :
    n.1 ∈ ["layout", "oneOfLayout"] := by
  rcases h.2 with ⟨layout, -, rfl⟩ | ⟨label, rfl⟩ <;> simp

namespace Yields

variable {ms ns : Members}

/-- Each member of what is left is yielded by a member of the object, or was gained. -/
theorem mem_cases (h : d.Yields (.obj ms) (.obj ns)) {n : String × Json} (hn : n ∈ ns) :
    (∃ v, (n.1, v) ∈ ms ∧ d.Yields v n.2) ∨ d.Gained ms n := by
  cases h with
  | kept hmembers => exact Or.inl (hmembers.exists_of_mem hn)
  | visited hmembers hlabel =>
    rw [List.append_assoc, List.mem_append] at hn
    rcases hn with hstayed | hgained
    · obtain ⟨v, hv, hyields⟩ := hmembers.exists_of_mem hstayed
      exact Or.inl ⟨v, (List.mem_filter.1 hv).1, hyields⟩
    · exact Or.inr (gained_of_mem hlabel hgained)

/-- What is found under a key is yielded by what was, or was gained. -/
theorem get?_cases (h : d.Yields (.obj ms) (.obj ns)) {key : String} {b : Json}
    (hb : ns.get? key = some b) :
    (∃ a, ms.get? key = some a ∧ d.Yields a b) ∨ d.Gained ms (key, b) := by
  cases h with
  | kept hmembers => exact Or.inl (hmembers.get? hb)
  | @visited _ stayed label hmembers hlabel =>
    rw [List.append_assoc, Members.get?_append] at hb
    cases hstayed : stayed.get? key with
    | some c =>
      rw [hstayed, Option.some_or, Option.some.injEq] at hb
      subst hb
      obtain ⟨a, ha, hyields⟩ := hmembers.get? hstayed
      rw [Table.get?_unclaimed] at ha
      split at ha
      · cases ha
      · exact Or.inl ⟨a, ha, hyields⟩
    | none =>
      rw [hstayed, Option.none_or] at hb
      exact Or.inr (gained_of_mem hlabel (Members.mem_of_get?_eq_some hb))

/-- A member that no rule claims stays. -/
theorem exists_get? (h : d.Yields (.obj ms) (.obj ns)) {key : String} {a : Json}
    (ha : ms.get? key = some a) (hclaimed : d.table.recognizes key = false) :
    ∃ b, ns.get? key = some b ∧ d.Yields a b := by
  have hmem : key ∈ ns.keys := by
    have hkey : key ∈ ms.keys := by
      by_contra hnot
      rw [(Members.get?_eq_none_iff ms key).2 hnot] at ha
      cases ha
    cases h with
    | kept hmembers => rwa [hmembers.keys_eq]
    | visited hmembers hlabel =>
      obtain ⟨m, hm, rfl⟩ := List.mem_map.1 hkey
      rw [Members.keys_append, Members.keys_append, hmembers.keys_eq]
      exact List.mem_append_left _ (List.mem_append_left _
        (List.mem_map_of_mem (List.mem_filter.2 ⟨hm, by simp [hclaimed]⟩)))
  cases hb : ns.get? key with
  | none => exact absurd hmem ((Members.get?_eq_none_iff ns key).1 hb)
  | some b =>
    rcases h.get?_cases hb with ⟨a', ha', hyields⟩ | hgained
    · rw [ha, Option.some.injEq] at ha'
      exact ⟨b, rfl, ha' ▸ hyields⟩
    · rw [(Members.get?_eq_none_iff ms key).2 hgained.1] at ha
      cases ha

/-- Under a keyword there is what was there, as the walk left it, or nothing as before. -/
theorem keyword_cases (h : d.Yields (.obj ms) (.obj ns)) (key : String)
    (hbuiltin : key ∉ Table.builtin.recognizedKeys) (hadded : key ∉ ["layout", "oneOfLayout"]) :
    (ms.get? key = none ∧ ns.get? key = none) ∨
      ∃ a b, ms.get? key = some a ∧ ns.get? key = some b ∧ d.Yields a b := by
  have hclaimed := d.table.recognizes_eq_false_of_builtin hbuiltin
  cases ha : ms.get? key with
  | some a =>
    obtain ⟨b, hb, hyields⟩ := h.exists_get? ha hclaimed
    exact Or.inr ⟨a, b, rfl, hb, hyields⟩
  | none =>
    refine Or.inl ⟨rfl, ?_⟩
    cases hb : ns.get? key with
    | none => rfl
    | some b =>
      rcases h.get?_cases hb with ⟨a, ha', -⟩ | hgained
      · rw [ha] at ha'
        cases ha'
      · exact absurd hgained.key_mem hadded

end Yields

end Dialect

end Relayout
