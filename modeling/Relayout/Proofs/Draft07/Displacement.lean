/-
  Relayout/Proofs/Draft07/Displacement.lean
  =========================================
  **A value violates the same wherever it stands.**

  The violations of a value further down in a document are those of the value on its own, each with
  the way to the value in front of its place (`violations_append`).  What asks for no schema is a
  matter of single checks, one lemma for each; the rest is an induction on the value, and a case for
  each expectation that looks into it.
-/
import Relayout.Draft07.Compilation
import Relayout.Proofs.Json.Induction

namespace Relayout

/-! ### Pointers further down -/

/-- The second pointer taken from where the first leads. -/
def Pointer.append (p q : Pointer) : Pointer := ⟨p.segments ++ q.segments⟩

namespace Pointer

theorem member_append (p q : Pointer) (name : String) :
    (p.append q).member name = p.append (q.member name) := by
  simp [append, member, push]

theorem element_append (p q : Pointer) (i : Nat) :
    (p.append q).element i = p.append (q.element i) := by
  simp [append, element, push]

@[simp] theorem append_root (p : Pointer) : p.append root = p := by
  simp [append, root]

end Pointer

namespace Draft07

/-- A violation seen from further up. -/
def Violation.under (p : Pointer) (v : Violation) : Violation :=
  { v with place := p.append v.place }

/-! ### Violations further down -/

theorem wrongType_append (t : ValueType) (p q : Pointer) (v : Json) :
    wrongType t (p.append q) v = (wrongType t q v).map (.under p) := rfl

theorem checkText_append (format : Option Format) (p q : Pointer) (v : Json) :
    checkText format (p.append q) v = (checkText format q v).map (.under p) := by
  cases v with
  | str s =>
    cases format with
    | none => rfl
    | some f =>
      rw [checkText, checkText]
      split <;> rfl
  | null | bool | num | arr | obj => rfl

theorem checkAmount_append (positive : Bool) (p q : Pointer) (v : Json) :
    checkAmount positive (p.append q) v = (checkAmount positive q v).map (.under p) := by
  cases v with
  | num n =>
    rw [checkAmount, checkAmount]
    split <;> rfl
  | null | bool | str | arr | obj => rfl

theorem checkCount_append (p q : Pointer) (v : Json) :
    checkCount (p.append q) v = (checkCount q v).map (.under p) := by
  cases v with
  | num n =>
    rw [checkCount, checkCount, List.map_append, wrongType_append]
    congr 1 <;> split <;> rfl
  | null | bool | str | arr | obj => rfl

theorem checkStrings_append (p q : Pointer) (i : Nat) (xs : List Json) :
    checkStrings (p.append q) i xs = (checkStrings q i xs).map (.under p) := by
  induction xs generalizing i with
  | nil => rfl
  | cons x xs ih =>
    simp only [checkStrings, List.map_append, ih, Pointer.element_append]
    cases x <;> rfl

theorem checkNames_append (p q : Pointer) (v : Json) :
    checkNames (p.append q) v = (checkNames q v).map (.under p) := by
  cases v with
  | arr xs =>
    rw [checkNames, checkNames, List.map_append, checkStrings_append]
    split <;> rfl
  | null | bool | num | str | obj => rfl

theorem checkTypeNames_append (p q : Pointer) (v : Json) :
    checkTypeNames (p.append q) v = (checkTypeNames q v).map (.under p) := by
  cases v with
  | arr xs =>
    simp only [checkTypeNames]
    split <;> rfl
  | null | bool | num | str | obj =>
    simp only [checkTypeNames]
    split <;> rfl

theorem checkPatternKeys_append (p q : Pointer) (ms : Members) :
    checkPatternKeys (p.append q) ms = (checkPatternKeys q ms).map (.under p) := by
  rw [checkPatternKeys, checkPatternKeys, List.map_flatMap]
  apply List.flatMap_congr
  intro key _
  split <;> rfl

theorem needsItem_append (p q : Pointer) (xs : List Json) :
    needsItem (p.append q) xs = (needsItem q xs).map (.under p) := by
  rw [needsItem, needsItem]
  split <;> rfl

theorem orAlternatives_append (p q : Pointer) (v : Json) (inside : List Violation) :
    orAlternatives (p.append q) v (inside.map (.under p))
      = (orAlternatives q v inside).map (.under p) := by
  cases inside <;> rfl

theorem lookup_memberViolations (p : Pointer) (ms : Members) (key : String) :
    (memberViolations p ms).lookup key
      = (ms.get? key).map (violations (expectation key) (p.member key)) :=
  Members.lookup_eq_map_get? (memberViolations p)
    (fun key => violations (expectation key) (p.member key)) rfl (fun _ _ _ => rfl) ms key

/-- What a value violates further down is what it violates on its own. -/
def Shifts (p : Pointer) (v : Json) : Prop :=
  ∀ E q, violations E (p.append q) v = (violations E q v).map (.under p)

section Shifts

variable {p : Pointer}

theorem elementViolations_append {xs : List Json} (h : ∀ x ∈ xs, Shifts p x) (q : Pointer)
    (i : Nat) :
    elementViolations (p.append q) i xs = (elementViolations q i xs).map (.under p) := by
  induction xs generalizing i with
  | nil => rfl
  | cons x xs ih =>
    obtain ⟨hx, hxs⟩ := List.forall_mem_cons.1 h
    rw [elementViolations, elementViolations, List.map_append, Pointer.element_append, hx, ih hxs]

theorem entryViolations_append {ms : Members} (h : ∀ m ∈ ms, Shifts p m.2) (q : Pointer) :
    entryViolations (p.append q) ms = (entryViolations q ms).map (.under p) := by
  induction ms with
  | nil => rfl
  | cons m ms ih =>
    obtain ⟨hm, hms⟩ := List.forall_mem_cons.1 h
    rw [entryViolations, entryViolations, List.map_append, Pointer.member_append, hm, ih hms]

theorem dependencyViolations_append {ms : Members} (h : ∀ m ∈ ms, Shifts p m.2) (q : Pointer) :
    dependencyViolations (p.append q) ms = (dependencyViolations q ms).map (.under p) := by
  induction ms with
  | nil => rfl
  | cons m ms ih =>
    obtain ⟨k, v⟩ := m
    obtain ⟨hv, hms⟩ := List.forall_mem_cons.1 h
    cases v with
    | arr xs =>
      rw [dependencyViolations, dependencyViolations, List.map_append, Pointer.member_append,
        ih hms, checkNames_append, orAlternatives_append]
    | null | bool | num | str | obj =>
      rw [dependencyViolations, dependencyViolations, List.map_append, Pointer.member_append,
        ih hms, hv, orAlternatives_append] <;> simp

theorem inKeywordOrder_append {ms : Members} (h : ∀ m ∈ ms, Shifts p m.2) (q : Pointer) :
    inKeywordOrder (memberViolations (p.append q) ms)
      = (inKeywordOrder (memberViolations q ms)).map (.under p) := by
  rw [inKeywordOrder, inKeywordOrder, List.map_flatMap]
  apply List.flatMap_congr
  intro entry _
  rw [lookup_memberViolations, lookup_memberViolations, Pointer.member_append]
  cases hget : ms.get? entry.1 with
  | none => rfl
  | some v => exact h _ (Members.mem_of_get?_eq_some hget) _ _

end Shifts

/-- An expectation that asks for no schema anywhere in a value. -/
def Expectation.isPlain : Expectation → Bool
  | .schema | .schemas | .schemaOrSchemas | .schemaMap | .patternMap | .dependencyMap => false
  | .anything | .text _ | .flag | .amount _ | .count | .list | .names | .typeNames => true

/-- What asks for no schema asks for the same further down. -/
theorem violations_append_of_isPlain {E : Expectation} (hE : E.isPlain = true) (p q : Pointer)
    (v : Json) : violations E (p.append q) v = (violations E q v).map (.under p) := by
  cases E with
  | schema | schemas | schemaOrSchemas | schemaMap | patternMap | dependencyMap => cases hE
  | anything => simp [violations]
  | text format => simpa only [violations] using checkText_append format p q v
  | flag => cases v <;> simp [violations, wrongType_append]
  | amount positive => simpa only [violations] using checkAmount_append positive p q v
  | count => simpa only [violations] using checkCount_append p q v
  | list => cases v <;> simp [violations, wrongType_append]
  | names => simpa only [violations] using checkNames_append p q v
  | typeNames => simpa only [violations] using checkTypeNames_append p q v

theorem shifts (p : Pointer) (v : Json) : Shifts p v := by
  induction v using Json.induction_on with
  | null | bool | num | str =>
    intro E q
    cases E with
    | schema | schemas | schemaOrSchemas | schemaMap | patternMap | dependencyMap =>
      simp [violations, wrongType, Violation.under]
    | anything | text | flag | amount | count | list | names | typeNames =>
      exact violations_append_of_isPlain rfl p q _
  | arr xs ih =>
    intro E q
    have hschemas : needsItem (p.append q) xs ++ elementViolations (p.append q) 0 xs
        = (needsItem q xs ++ elementViolations q 0 xs).map (.under p) := by
      rw [List.map_append, needsItem_append, elementViolations_append ih]
    cases E with
    | schemas => simpa only [violations] using hschemas
    | schemaOrSchemas =>
      rw [violations, violations, hschemas, orAlternatives_append]
    | schema | schemaMap | patternMap | dependencyMap =>
      simp [violations, wrongType, Violation.under]
    | anything | text | flag | amount | count | list | names | typeNames =>
      exact violations_append_of_isPlain rfl p q _
  | obj ms ih =>
    intro E q
    cases E with
    | schema =>
      rw [violations, violations]
      exact inKeywordOrder_append ih q
    | schemaOrSchemas =>
      rw [violations, violations, inKeywordOrder_append ih, orAlternatives_append]
    | schemaMap =>
      rw [violations, violations]
      exact entryViolations_append ih q
    | patternMap =>
      rw [violations, violations, List.map_append, entryViolations_append ih,
        checkPatternKeys_append]
    | dependencyMap =>
      rw [violations, violations]
      exact dependencyViolations_append ih q
    | schemas => simp [violations, wrongType, Violation.under]
    | anything | text | flag | amount | count | list | names | typeNames =>
      exact violations_append_of_isPlain rfl p q _

/-- **A value violates the same wherever it stands**, with its place in front of each. -/
theorem violations_append (E : Expectation) (p q : Pointer) (v : Json) :
    violations E (p.append q) v = (violations E q v).map (.under p) :=
  shifts p v E q

end Draft07

end Relayout
