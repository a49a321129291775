/-
  Relayout/Proofs/Json/Objects.lean
  =================================
  **The objects in a value.**

  `Json.objects` lists every object at any depth, whatever it stands under.  What is at a place
  of a value has its objects among those of the value (`objects_subset_of_at?`).
-/
import Relayout.Proofs.Json.Induction

namespace Relayout

namespace Json

mutual

/-- The objects in a value, the value itself included. -/
def objects : Json → List Members
  | .arr xs => elementObjects xs
  | .obj ms => ms :: memberObjects ms
  | _ => []

/-- The objects in elements. -/
def elementObjects : List Json → List Members
  | [] => []
  | x :: xs => objects x ++ elementObjects xs

/-- The objects in the values of members. -/
def memberObjects : Members → List Members
  | [] => []
  | (_, v) :: ms => objects v ++ memberObjects ms

end

variable {node : Members}

@[simp] theorem mem_objects_arr {xs : List Json} :
    node ∈ (arr xs).objects ↔ ∃ x ∈ xs, node ∈ x.objects := by
  rw [objects]
  induction xs with
  | nil => simp [elementObjects]
  | cons x xs ih => simp [elementObjects, ih]

@[simp] theorem mem_objects_obj {ms : Members} :
    node ∈ (obj ms).objects ↔ node = ms ∨ ∃ m ∈ ms, node ∈ m.2.objects := by
  have hmembers : node ∈ memberObjects ms ↔ ∃ m ∈ ms, node ∈ m.2.objects := by
    induction ms with
    | nil => simp [memberObjects]
    | cons m ms ih => simp [memberObjects, ih]
  rw [objects, List.mem_cons, hmembers]

theorem objects_subset_of_child? {v w : Json} {name : String} (h : v.child? name = some w) :
    w.objects ⊆ v.objects := by
  intro node hnode
  cases v with
  | obj ms => exact mem_objects_obj.2 (Or.inr ⟨_, Members.mem_of_get?_eq_some h, hnode⟩)
  | arr xs =>
    obtain ⟨i, -, hx⟩ := Option.bind_eq_some_iff.1 h
    exact mem_objects_arr.2 ⟨w, List.mem_of_getElem? hx, hnode⟩
  | null | bool | num | str => cases h

theorem objects_subset_of_at? {v w : Json} {place : Place} (h : v.at? place = some w) :
    w.objects ⊆ v.objects := by
  induction place generalizing v with
  | nil =>
    cases h
    exact List.Subset.refl _
  | cons name place ih =>
    obtain ⟨child, hchild, hat⟩ := Option.bind_eq_some_iff.1 h
    exact List.Subset.trans (ih hat) (objects_subset_of_child? hchild)

end Json

end Relayout
