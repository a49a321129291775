/-
  Relayout/Proofs/Extension/Fault.lean
  ====================================
  **The errors of the rules tell the truth.**

  An error about extensions names the place of the node, and what it says of the node is so
  (`Site.Faulty`): the keys that do not go together are all there, the value under the key of an
  invalid one is not what was expected, and the sources in conflict are both texts.  This holds of
  each cause for which a rule that claims a key of the node refuses it (`Rule.Refuses.faulty`), and
  so of the whole table (`Table.faulty_of_map`).
-/
import Relayout.Proofs.Extension.Edit
import Relayout.Proofs.Extension.Refusal
import Relayout.Proofs.Json.Place

namespace Relayout

/-- A value is what was expected under an extension. -/
def ExpectedValue.Fits (detector : Template.Detector) : ExpectedValue → Json → Prop
  | .string, v => ∃ text, v = .str text
  | .plainExpression, v =>
    ∃ text, v = .str text ∧ (detector.detect text .expression).classification ≠ .template
  | .object, v => ∃ ms, v = .obj ms
  | .numberOrObject, v => (∃ n, v = .num n) ∨ ∃ ms, v = .obj ms

namespace Site

/-- An error about extensions belongs to this node, and what it says of the node is so. -/
def Faulty (s : Site) : MigrationError → Prop
  | .conflictingSource place => place = s.place ∧
    (∃ expr, s.node.get? "x-fromData" = some (.str expr)) ∧
      ∃ url, s.node.get? "x-fromUrl" = some (.str url)
  | .unsupportedCombination keys place _ =>
    place = s.place ∧ keys ≠ [] ∧ ∀ key ∈ keys, s.node.has key = true
  | .invalidValue key place expected =>
    place = s.place ∧ ∃ v, s.node.get? key = some v ∧ ¬ expected.Fits s.detector v
  | .unresolvedRef _ _ | .invalidInput _ => False

variable {s : Site} {e : MigrationError}

theorem faulty_unsupported {keys : List String} {key : String} (hkey : key ∈ keys)
    (hhas : s.node.has key = true) (reason : Incompatibility) :
    s.Faulty (s.unsupported keys reason) := by
  refine ⟨rfl, ?_, fun other hother => (List.mem_filter.1 hother).2⟩
  exact List.ne_nil_of_mem (List.mem_filter.2 ⟨hkey, hhas⟩)

/-- What is there under a key is not what was expected, if not all that may be there is. -/
theorem faulty_invalid {key : String} {expected : ExpectedValue}
    (h : ¬ ∀ v, s.node.get? key = some v → expected.Fits s.detector v) :
    s.Faulty (.invalidValue key s.place expected) := by
  obtain ⟨v, hv⟩ := Classical.not_forall.1 h
  obtain ⟨hget, hnot⟩ := Classical.not_imp.1 hv
  exact ⟨rfl, v, hget, hnot⟩

end Site

namespace Rule

variable {s : Site} {e : MigrationError}

theorem has_of_text?_eq_some {node : Members} {key text : String}
    (h : node.text? key = some text) : node.has key = true :=
  Members.has_of_get?_eq_some (Members.get?_eq_of_text?_eq_some h)

/-- Where a key about items is there and none of them is a source, it tells how entries are
    shown. -/
theorem exists_entries_key (htexts : ∀ key ∈ itemSource.keys, s.node.TextIfAny key)
    (hclaims : itemSource.keys.any s.node.has = true) (hdata : s.node.text? "x-fromData" = none)
    (hurl : s.node.text? "x-fromUrl" = none) (hprop : s.node.text? "x-itemsProp" = none) :
    ∃ key ∈ ["x-itemKey", "x-itemTitle"], s.node.has key = true := by
  obtain ⟨key, hkey, hhas⟩ := List.any_eq_true.1 hclaims
  have htext : s.node.text? key ≠ none :=
    (Members.text?_ne_none_iff fun _ => htexts key hkey).2 hhas
  refine ⟨key, ?_, hhas⟩
  simp only [keys, List.mem_cons, List.not_mem_nil, or_false] at hkey ⊢
  rcases hkey with rfl | rfl | rfl | hentries
  · exact absurd hdata htext
  · exact absurd hurl htext
  · exact absurd hprop htext
  · exact hentries

/-- What a rule that claims a key of the node finds wrong with it is so. -/
theorem Refuses.faulty {rule : Rule} (h : rule.Refuses s e)
    (hclaims : rule.keys.any s.node.has = true) : s.Faulty e := by
  have hget {key text : String} (htext : s.node.text? key = some text) :
      s.node.get? key = some (.str text) := Members.get?_eq_of_text?_eq_some htext
  cases h with
  | itemText _ _ hkey => exact Site.faulty_invalid hkey
  | twoSources _ hdata hurl => exact ⟨rfl, ⟨_, hget hdata⟩, _, hget hurl⟩
  | propOfExpression _ hdata =>
    exact Site.faulty_unsupported List.mem_cons_self (has_of_text?_eq_some hdata) _
  | template _ hdata _ _ htemplate =>
    apply Site.faulty_invalid
    intro hfits
    obtain ⟨text, heq, hplain⟩ := hfits _ (hget hdata)
    cases heq
    exact hplain htemplate
  | propWithoutUrl _ _ _ hprop =>
    exact Site.faulty_unsupported List.mem_cons_self (has_of_text?_eq_some hprop) _
  | outsideArray htexts hdata hurl hprop =>
    obtain ⟨key, hkey, hhas⟩ := exists_entries_key htexts hclaims hdata hurl hprop
    exact Site.faulty_unsupported hkey hhas _
  | display htext => exact Site.faulty_invalid htext
  | condition htext => exact Site.faulty_invalid htext
  | props hprops => exact Site.faulty_invalid hprops
  | cols _ hcols => exact Site.faulty_invalid hcols

end Rule

namespace Table

variable {s : Site} {e : MigrationError}

/-- **The error of a node whose extensions cannot be mapped tells the truth about the node.** -/
theorem faulty_of_map {table : Table} (h : (table.map s).result = .error e) : s.Faulty e := by
  by_cases hclaimed : table.consumed s.node = []
  · rw [result_map_of_unclaimed hclaimed] at h
    cases h
  · cases hlayout : s.node.has "layout" with
    | true =>
      rw [result_map_of_layout hclaimed hlayout] at h
      obtain rfl := Except.error.inj h
      refine ⟨rfl, by simp, ?_⟩
      intro key hkey
      rcases List.mem_append.1 hkey with hconsumed | hlast
      · obtain ⟨-, -, -, hhas⟩ := mem_consumed_iff_exists.1 (List.mem_mergeSort.1 hconsumed)
        exact hhas
      · rw [List.mem_singleton.1 hlast]
        exact hlayout
    | false =>
      rw [result_map_of_rules hclaimed hlayout, map_eq_error_iff, applicable,
        applyRules_eq_error_iff] at h
      obtain ⟨-, rule, -, -, -, hclaims, hrefuses⟩ := h
      exact hrefuses.faulty hclaims

end Table

end Relayout
