/-
  Relayout/Proofs/Lint/Legacy.lean
  ================================
  **Which extensions a lint finds left over.**

  A lint looks at every object, so it warns of a legacy extension exactly if a built-in rule claims
  a key of some object of the document (`Json.no_legacy_iff`).  Where a walk would visit the object,
  and whether it would at all, plays no part.
-/
import Relayout.Lint.Contract
import Relayout.Proofs.Json.Objects

namespace Relayout

/-- The extension that a finding reports as left over. -/
def Finding.leftover? : Finding → Option String
  | .warning (.legacyExtension key) _ => some key
  | .warning (.unpromotedPlaceholder _) _ | .error _ _ => none

namespace Contract

variable {node fields : Members} {p : Pointer}

/-! ### Findings about layouts -/

theorem leftover?_checkItemFields :
    (checkItemFields node fields p).filterMap Finding.leftover? = [] := by
  have hfield (field : String) :
      (checkItemField node fields p field).filterMap Finding.leftover? = [] := by
    unfold checkItemField
    split
    · split <;> rfl
    · rfl
  rw [checkItemFields, List.filterMap_append, hfield, hfield, List.append_nil]

theorem leftover?_checkUrl (url : Json) : (checkUrl p url).filterMap Finding.leftover? = [] := by
  unfold checkUrl
  split
  · rfl
  · split <;> rfl

theorem leftover?_checkSource (source : Json) :
    (checkSource node p source).filterMap Finding.leftover? = [] := by
  cases source with
  | obj fields =>
    rw [checkSource, List.filterMap_append, leftover?_checkItemFields, List.append_nil]
    split
    · rfl
    · rfl
    · exact leftover?_checkUrl _
    · rfl
  | null | bool | num | str | arr => rfl

/-- What is found about the layout of an object is no extension left over. -/
theorem leftover?_checkNode : (checkNode node p).filterMap Finding.leftover? = [] := by
  unfold checkNode
  split
  · rename_i layout _
    cases layout with
    | obj fields =>
      rw [checkLayout, List.filterMap_append, List.filterMap_append, leftover?_checkItemFields,
        List.append_nil, List.append_eq_nil_iff]
      constructor
      · split <;> rfl
      · split
        · exact leftover?_checkSource _
        · rfl
    | null | bool | num | str | arr => rfl
  · rfl

/-! ### Keys left over -/

theorem mem_leftover?_checkKey {key name : String} :
    key ∈ (checkKey name p).filterMap Finding.leftover? ↔
      key = name ∧ Table.builtin.recognizes key = true := by
  unfold checkKey
  split
  · rename_i hclaimed
    have hleftover : [Finding.warning (.legacyExtension name) p].filterMap Finding.leftover?
        = [name] := rfl
    rw [hleftover, List.mem_singleton]
    constructor
    · rintro rfl
      exact ⟨rfl, hclaimed⟩
    · exact And.left
  · rename_i hclaimed
    constructor
    · intro hmem
      cases hmem
    · rintro ⟨rfl, h⟩
      exact absurd h hclaimed

/-- A check finds the claimed keys of all objects, and no other key. -/
theorem mem_leftover?_check {key : String} (v : Json) (p : Pointer) :
    key ∈ (check p v).filterMap Finding.leftover? ↔
      ∃ node ∈ v.objects, key ∈ node.keys ∧ Table.builtin.recognizes key = true := by
  induction v using Json.induction_on generalizing p with
  | null | bool | num | str => simp [check, Json.objects]
  | arr xs ih =>
    have helements (i : Nat) : key ∈ (checkElements p i xs).filterMap Finding.leftover? ↔
        ∃ x ∈ xs, ∃ node ∈ x.objects, key ∈ node.keys ∧ Table.builtin.recognizes key = true := by
      induction xs generalizing i with
      | nil => simp [checkElements]
      | cons x xs ihxs =>
        obtain ⟨hx, hxs⟩ := List.forall_mem_cons.1 ih
        rw [checkElements, List.filterMap_append, List.mem_append, hx, ihxs hxs,
          List.exists_mem_cons_iff]
    rw [check, helements]
    simp only [Json.mem_objects_arr]
    tauto
  | obj ms ih =>
    have hmembers : key ∈ (checkMembers p ms).filterMap Finding.leftover? ↔
        (key ∈ Members.keys ms ∧ Table.builtin.recognizes key = true) ∨
          ∃ m ∈ ms, ∃ node ∈ m.2.objects,
            key ∈ node.keys ∧ Table.builtin.recognizes key = true := by
      induction ms with
      | nil => simp [checkMembers, Members.keys]
      | cons m ms ihms =>
        obtain ⟨k, v⟩ := m
        obtain ⟨hv, hms⟩ := List.forall_mem_cons.1 ih
        have hkeys : key ∈ Members.keys ((k, v) :: ms) ↔ key = k ∨ key ∈ Members.keys ms :=
          List.mem_cons
        rw [checkMembers, List.filterMap_append, List.filterMap_append, List.mem_append,
          List.mem_append, mem_leftover?_checkKey, hv, ihms hms, hkeys, List.exists_mem_cons_iff,
          or_and_right, or_or_or_comm]
    rw [check, List.filterMap_append, leftover?_checkNode, List.nil_append, hmembers]
    constructor
    · rintro (⟨hkey, hclaimed⟩ | ⟨m, hm, node, hnode, hkey⟩)
      · exact ⟨ms, Json.mem_objects_obj.2 (Or.inl rfl), hkey, hclaimed⟩
      · exact ⟨node, Json.mem_objects_obj.2 (Or.inr ⟨m, hm, hnode⟩), hkey⟩
    · rintro ⟨node, hnode, hkey⟩
      rcases Json.mem_objects_obj.1 hnode with rfl | ⟨m, hm, hinside⟩
      · exact Or.inl hkey
      · exact Or.inr ⟨m, hm, node, hinside, hkey⟩

theorem leftover?_checkRoot (document : Json) :
    (checkRoot document).filterMap Finding.leftover? = [] := by
  unfold checkRoot
  split <;> rfl

end Contract

theorem LintWarning.code_eq_legacy_iff {warning : LintWarning} :
    warning.code = "LEGACY_EXTENSION" ↔ ∃ key, warning = .legacyExtension key := by
  cases warning <;> simp [code]

theorem Finding.exists_leftover?_iff {findings : List Finding} :
    (∃ warning ∈ findings.filterMap Finding.warning?, warning.1.code = "LEGACY_EXTENSION") ↔
      ∃ key, key ∈ findings.filterMap Finding.leftover? := by
  simp only [List.mem_filterMap, LintWarning.code_eq_legacy_iff]
  constructor
  · rintro ⟨⟨_, p⟩, ⟨finding, hmem, hfinding⟩, key, rfl⟩
    cases finding with
    | error cause p => cases hfinding
    | warning cause p =>
      cases hfinding
      exact ⟨key, _, hmem, rfl⟩
  · rintro ⟨key, finding, hmem, hkey⟩
    cases finding with
    | error cause p => cases hkey
    | warning cause p =>
      cases cause with
      | legacyExtension name => exact ⟨(_, p), ⟨_, hmem, rfl⟩, name, rfl⟩
      | unpromotedPlaceholder expr => cases hkey

/-- A lint warns of no legacy extension exactly if no built-in rule claims a key of an object. -/
theorem Json.no_legacy_iff (document : Json) :
    (∀ warning ∈ document.lint.warnings, warning.1.code ≠ "LEGACY_EXTENSION") ↔
      ∀ node ∈ document.objects, ∀ key ∈ node.keys, Table.builtin.recognizes key = false := by
  have hfindings (key : String) :
      key ∈ document.lint.findings.filterMap Finding.leftover? ↔
        ∃ node ∈ document.objects, key ∈ node.keys ∧ Table.builtin.recognizes key = true := by
    rw [lint, List.filterMap_append, Contract.leftover?_checkRoot, List.append_nil]
    exact Contract.mem_leftover?_check document .root
  have hwarns : (∃ warning ∈ document.lint.warnings, warning.1.code = "LEGACY_EXTENSION") ↔
      ∃ key, ∃ node ∈ document.objects,
        key ∈ node.keys ∧ Table.builtin.recognizes key = true := by
    simp only [← hfindings]
    exact Finding.exists_leftover?_iff
  constructor
  · intro h node hnode key hkey
    by_contra hclaimed
    obtain ⟨warning, hmem, hcode⟩ := hwarns.2 ⟨key, node, hnode, hkey, by simpa using hclaimed⟩
    exact h warning hmem hcode
  · intro h warning hmem hcode
    obtain ⟨key, node, hnode, hkey, hclaimed⟩ := hwarns.1 ⟨warning, hmem, hcode⟩
    rw [h node hnode key hkey] at hclaimed
    cases hclaimed

end Relayout
