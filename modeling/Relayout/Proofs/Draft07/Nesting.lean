/-
  Relayout/Proofs/Draft07/Nesting.lean
  ====================================
  **A schema that is nested in others is told the same violations as on its own.**

  A `Context` is a schema with one schema left open, any number of levels down: under a keyword that
  holds a schema, as a member of one that holds a map of schemas, or as an element of one that
  holds a list of them.  Whatever is put there, what the rest of a valid context asks for is still
  satisfied, so that all violations are those of the schema that was put (`Context.violations_fill`);
  and they are the violations of that schema alone, each with its place further down
  (`violations_append`).
-/
import Relayout.Proofs.Draft07.Fits
import Relayout.Proofs.Json.Address
import Relayout.Proofs.Json.Variation

namespace Relayout

theorem Pointer.text_append (p q : Pointer) : (p.append q).text = p.text ++ q.text := by
  rw [← String.toList_inj, String.toList_append, toList_text, toList_text, toList_text, append,
    List.map_append, List.flatMap_append]

namespace Draft07

/-! ### Contexts -/

/-- What is left open in the value of a keyword. -/
inductive Hole where
  /-- The value itself. -/
  | value
  /-- One of its members. -/
  | entry (before : Members) (name : String) (after : Members) (fresh : name ∉ before.keys)
  /-- One of its elements. -/
  | element (before after : List Json)

namespace Hole

/-- The value with something in the hole. -/
def fill (v : Json) : Hole → Json
  | .value => v
  | .entry before name after _ => .obj (before ++ (name, v) :: after)
  | .element before after => .arr (before ++ v :: after)

/-- Where the hole is in a value. -/
def below (p : Pointer) : Hole → Pointer
  | .value => p
  | .entry _ name _ _ => p.member name
  | .element before _ => p.element before.length

/-- What the value has to be so that the hole asks for a schema. -/
def expectation : Hole → Expectation
  | .value => .schema
  | .entry .. => .schemaMap
  | .element .. => .schemas

/-- The keywords with such a hole in their value. -/
def keywords : Hole → List String
  | .value => ["additionalProperties", "additionalItems", "contains", "propertyNames", "if", "then",
      "else", "not"]
  | .entry .. => ["properties", "definitions"]
  | .element .. => ["allOf", "anyOf", "oneOf"]

theorem expectation_of_mem_keywords {hole : Hole} {keyword : String} (h : keyword ∈ hole.keywords) :
    Draft07.expectation keyword = hole.expectation := by
  have hall : (∀ k ∈ keywords .value, Draft07.expectation k = .schema) ∧
      (∀ k ∈ ["properties", "definitions"], Draft07.expectation k = .schemaMap) ∧
      ∀ k ∈ ["allOf", "anyOf", "oneOf"], Draft07.expectation k = .schemas := by decide
  cases hole with
  | value => exact hall.1 keyword h
  | entry => exact hall.2.1 keyword h
  | element => exact hall.2.2 keyword h

end Hole

/-- An object with a keyword whose value has a hole. -/
structure Frame where
  before : Members
  keyword : String
  hole : Hole
  after : Members
  holds : keyword ∈ hole.keywords
  fresh : keyword ∉ before.keys

namespace Frame

/-- The object with something in the hole. -/
def fill (f : Frame) (v : Json) : Json := .obj (f.before ++ (f.keyword, f.hole.fill v) :: f.after)

/-- Where the hole is. -/
def below (f : Frame) (p : Pointer) : Pointer := f.hole.below (p.member f.keyword)

theorem keyword_mem (f : Frame) : f.keyword ∈ Draft07.keywords.map Prod.fst := by
  by_contra hnot
  have h := Hole.expectation_of_mem_keywords f.holds
  rw [expectation_eq_anything hnot] at h
  cases hhole : f.hole with
  | value | entry | element =>
    rw [hhole] at h
    cases h

end Frame

/-- Objects inside each other, the outermost first, each in the hole of the one before. -/
abbrev Context := List Frame

namespace Context

/-- The outermost object with something in the innermost hole. -/
def fill : Context → Json → Json
  | [], v => v
  | f :: inner, v => f.fill (fill inner v)

/-- Where the innermost hole is. -/
def below : Context → Pointer → Pointer
  | [], p => p
  | f :: inner, p => below inner (f.below p)

/-- The pointer to the innermost hole. -/
def pointer (c : Context) : Pointer := c.below .root

/-- A context is valid if the schema that allows everything makes it a valid schema. -/
def Valid (c : Context) : Prop := Conforms (c.fill (.bool true))

instance (c : Context) : Decidable c.Valid := inferInstanceAs (Decidable (Conforms _))

end Context

/-! ### One level -/

theorem violations_schemaMap_obj (p : Pointer) (ms : Members) :
    violations .schemaMap p (.obj ms) = entryViolations p ms := by
  rw [violations]

theorem violations_schemas_arr (p : Pointer) (xs : List Json) :
    violations .schemas p (.arr xs) = needsItem p xs ++ elementViolations p 0 xs := by
  rw [violations]

theorem violations_schema_obj (p : Pointer) (ms : Members) :
    violations .schema p (.obj ms) = (keywords.map Prod.fst).flatMap (fun key =>
      ((ms.get? key).map (violations (expectation key) (p.member key))).getD []) := by
  rw [violations, inKeywordOrder, List.flatMap_map]
  simp only [lookup_memberViolations]

theorem entryViolations_concat (p : Pointer) (ms ns : Members) :
    entryViolations p (ms ++ ns) = entryViolations p ms ++ entryViolations p ns := by
  induction ms with
  | nil => rfl
  | cons m ms ih => rw [List.cons_append, entryViolations, entryViolations, ih, List.append_assoc]

theorem elementViolations_concat (p : Pointer) (i : Nat) (xs ys : List Json) :
    elementViolations p i (xs ++ ys)
      = elementViolations p i xs ++ elementViolations p (i + xs.length) ys := by
  induction xs generalizing i with
  | nil => rfl
  | cons x xs ih =>
    have hlength : i + 1 + xs.length = i + (x :: xs).length := by
      rw [List.length_cons]
      omega
    rw [List.cons_append, elementViolations, elementViolations, ih, List.append_assoc, hlength]

/-- If the rest of a value is valid, its violations are those in the hole. -/
theorem Hole.violations_fill {hole : Hole} {w : Json} (h : Fits hole.expectation (hole.fill w))
    (p : Pointer) (v : Json) :
    violations hole.expectation p (hole.fill v) = violations .schema (hole.below p) v := by
  cases hole with
  | value => rfl
  | entry before name after =>
    obtain ⟨_, ⟨⟩, hms⟩ := Fits.schemaMap_iff.1 h
    have hbefore : entryViolations p before = [] :=
      (entryViolations_eq_nil_iff (fun m _ => decided m.2)).2
        (fun m hm => hms m (List.mem_append_left _ hm))
    have hafter : entryViolations p after = [] :=
      (entryViolations_eq_nil_iff (fun m _ => decided m.2)).2
        (fun m hm => hms m (List.mem_append_right _ (List.mem_cons_of_mem _ hm)))
    rw [expectation, fill, below, violations_schemaMap_obj, entryViolations_concat, entryViolations,
      hbefore, hafter, List.nil_append, List.append_nil]
  | element before after =>
    obtain ⟨_, ⟨⟩, -, hxs⟩ := Fits.schemas_iff.1 h
    have hbefore : elementViolations p 0 before = [] :=
      (elementViolations_eq_nil_iff (fun x _ => decided x)).2
        (fun x hx => hxs x (List.mem_append_left _ hx))
    have hafter (i : Nat) : elementViolations p i after = [] :=
      (elementViolations_eq_nil_iff (fun x _ => decided x)).2
        (fun x hx => hxs x (List.mem_append_right _ (List.mem_cons_of_mem _ hx)))
    have hsome : needsItem p (before ++ v :: after) = [] :=
      needsItem_eq_nil_iff.2 (by simp)
    rw [expectation, fill, below, violations_schemas_arr, elementViolations_concat,
      elementViolations, hsome, hbefore, hafter, List.nil_append, List.nil_append, List.append_nil,
      Nat.zero_add]

theorem nodup_keywords : (keywords.map Prod.fst).Nodup := by decide

/-- In a list without repetitions what one element gives is all, if the others give nothing. -/
theorem flatMap_eq_of_others {α β : Type} {f : α → List β} {xs : List α} (hnodup : xs.Nodup)
    {x : α} (hx : x ∈ xs) (hothers : ∀ y ∈ xs, y ≠ x → f y = []) : xs.flatMap f = f x := by
  obtain ⟨before, after, rfl⟩ := List.append_of_mem hx
  obtain ⟨hbefore, hafter⟩ : x ∉ before ∧ x ∉ after := by
    rw [List.perm_middle.nodup_iff, List.nodup_cons, List.mem_append, not_or] at hnodup
    exact hnodup.1
  have hempty (ys : List α) (hsub : ys ⊆ before ++ x :: after) (hnot : x ∉ ys) :
      ys.flatMap f = [] := by
    rw [List.flatMap_eq_nil_iff]
    intro y hy
    refine hothers y (hsub hy) ?_
    rintro rfl
    exact hnot hy
  have hleft := hempty before (List.subset_append_left _ _) hbefore
  have hright := hempty after
    (List.Subset.trans (List.subset_cons_self _ _) (List.subset_append_right _ _)) hafter
  rw [List.flatMap_append, List.flatMap_cons, hleft, hright, List.nil_append, List.append_nil]

theorem Frame.violations_fill {f : Frame} {w : Json} (h : Fits .schema (f.fill w)) (p : Pointer)
    (v : Json) : violations .schema p (f.fill v) = violations .schema (f.below p) v := by
  have hmembers := Fits.schema_obj_iff.1 h
  rw [fill, violations_schema_obj, flatMap_eq_of_others nodup_keywords f.keyword_mem]
  · rw [Members.get?_append_cons f.fresh, if_pos rfl, Option.map_some, Option.getD_some,
      Hole.expectation_of_mem_keywords f.holds]
    apply Hole.violations_fill
    rw [← Hole.expectation_of_mem_keywords f.holds]
    apply hmembers
    rw [Members.get?_append_cons f.fresh, if_pos rfl]
  -- the other keywords see the object without the hole
  · intro key _ hne
    rw [Members.get?_append_cons f.fresh, if_neg (Ne.symm hne)]
    cases hget : Members.get? (f.before ++ f.after) key with
    | none => rfl
    | some u =>
      rw [Option.map_some, Option.getD_some, violations_eq_nil_iff]
      apply hmembers
      rw [Members.get?_append_cons f.fresh, if_neg (Ne.symm hne), hget]

/-! ### Contexts that are valid -/

namespace Context

variable {c : Context}

/-- All violations of what is put in a context that can be made a valid schema are in the hole. -/
theorem violations_fill {w : Json} (h : Fits .schema (c.fill w)) (p : Pointer) (v : Json) :
    violations .schema p (c.fill v) = violations .schema (c.below p) v := by
  induction c generalizing p with
  | nil => rfl
  | cons f inner ih =>
    -- what makes the whole valid makes what is in the outermost hole valid
    have hinner : Fits .schema (fill inner w) := by
      rw [← violations_eq_nil_iff, ← Frame.violations_fill h .root, violations_eq_nil_iff]
      exact h
    rw [fill, Frame.violations_fill h, ih hinner, below]

theorem Valid.violations_fill (h : c.Valid) (v : Json) :
    violations .schema .root (c.fill v) = (violations .schema .root v).map (.under c.pointer) := by
  rw [Context.violations_fill (conforms_iff.1 h), ← violations_append, Pointer.append_root, pointer]

/-- A valid context is made a valid schema by valid schemas only. -/
theorem Valid.conforms_fill_iff (h : c.Valid) {v : Json} : Conforms (c.fill v) ↔ Conforms v := by
  rw [Conforms, h.violations_fill, List.map_eq_nil_iff, Conforms]

theorem leadsTo_hole {document v : Json} {hole : Hole} {p : Pointer}
    (h : document.LeadsTo p (hole.fill v)) : document.LeadsTo (hole.below p) v := by
  cases hole with
  | value => exact h
  | entry before name after fresh =>
    apply h.member
    rw [Members.get?_append_cons fresh, if_pos rfl]
  | element before after =>
    apply h.element
    simp

theorem leadsTo_below {document v : Json} {p : Pointer} (h : document.LeadsTo p (c.fill v)) :
    document.LeadsTo (c.below p) v := by
  induction c generalizing p with
  | nil => exact h
  | cons f inner ih =>
    apply ih
    apply leadsTo_hole
    apply h.member
    rw [Members.get?_append_cons f.fresh, if_pos rfl]

theorem leadsTo_pointer (c : Context) (v : Json) : (c.fill v).LeadsTo c.pointer v :=
  leadsTo_below (.root _)

end Context

theorem validate_of_not_conforms {document : Json} (h : ¬ Conforms document) :
    validate document
      = .error ((violations .schema .root document).map Violation.message) := by
  unfold validate
  split
  · rename_i hnil
    exact absurd hnil h
  · rfl

theorem message_under (p : Pointer) (v : Violation) :
    (v.under p).message
      = v.value.compact ++ " " ++ v.breach.describe
        ++ " (at '" ++ (p.text ++ v.place.text) ++ "')" := by
  rw [Violation.message, located, Violation.under, Pointer.text_append]

/-- **A rejected schema is rejected with the same messages wherever it is nested**: in the same
    order, the pointer of the context in front of the pointer of each. -/
theorem validate_nested {c : Context} (hrest : c.Valid) {s : Json} (hs : ¬ Conforms s) :
    (c.fill s).atText? c.pointer.text = some s ∧
    validate s = .error ((violations .schema .root s).map (fun v =>
      v.value.compact ++ " " ++ v.breach.describe ++ " (at '" ++ v.place.text ++ "')")) ∧
    validate (c.fill s) = .error ((violations .schema .root s).map (fun v =>
      v.value.compact ++ " " ++ v.breach.describe
        ++ " (at '" ++ (c.pointer.text ++ v.place.text) ++ "')")) := by
  refine ⟨(c.leadsTo_pointer s).atText?, ?_, ?_⟩
  · rw [validate_of_not_conforms hs]
    rfl
  · have hfill : ¬ Conforms (c.fill s) := by rwa [hrest.conforms_fill_iff]
    rw [validate_of_not_conforms hfill, hrest.violations_fill, List.map_map]
    congr 1
    apply List.map_congr_left
    intro v _
    exact message_under c.pointer v

/-- A schema inside three others, one of them under a key that has to be escaped. -/
def sampleContext : Context := [
  ⟨[("title", .str "t")], "properties",
    .entry [("x", .bool true)] "a/b" [("y", .obj [("type", .str "null")])] (by decide), [],
    by decide, by decide⟩,
  ⟨[], "allOf", .element [.bool false] [.obj []], [("maximum", .num (.int 3))],
    by decide, by decide⟩,
  ⟨[("$ref", .str "#")], "not", .value, [], by decide, by decide⟩]

/-- A value with two faults. -/
def sampleFaults : Json :=
  .obj [("type", .str "strin"), ("required", .num (.int 3)), ("title", .str "s")]

theorem validate_nested_sample :
    sampleContext.Valid ∧ ¬ Conforms sampleFaults ∧
    (sampleContext.fill sampleFaults).atText? sampleContext.pointer.text = some sampleFaults ∧
    validate sampleFaults = .error ((violations .schema .root sampleFaults).map (fun v =>
      v.value.compact ++ " " ++ v.breach.describe ++ " (at '" ++ v.place.text ++ "')")) ∧
    validate (sampleContext.fill sampleFaults)
      = .error ((violations .schema .root sampleFaults).map (fun v =>
          v.value.compact ++ " " ++ v.breach.describe
            ++ " (at '" ++ (sampleContext.pointer.text ++ v.place.text) ++ "')")) :=
  have hvalid : sampleContext.Valid := by decide +kernel
  have hfaults : ¬ Conforms sampleFaults := by decide +kernel
  ⟨hvalid, hfaults, validate_nested hvalid hfaults⟩

example : validate (sampleContext.fill sampleFaults) = .error [
    "3 is not of type \"array\" (at '/properties/a~1b/allOf/1/not/required')",
    "\"strin\" is not valid under any of the schemas listed in the 'anyOf' keyword" ++
      " (at '/properties/a~1b/allOf/1/not/type')"] := by decide +kernel

end Draft07

end Relayout
