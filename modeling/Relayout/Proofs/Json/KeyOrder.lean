/-
  Relayout/Proofs/Json/KeyOrder.lean
  ==================================
  **Values up to the order of their keys.**

  `Json.sorted` puts the members of every object, at any depth, into the order of their keys.  Two
  values are equal up to the order of keys if they are equal once sorted.  For values without
  repeated keys this means that they show the same at every place, except that the keys of an
  object may come in another order (`sorted_eq_sorted_iff`).

  Sorting commutes with everything that looks a value up by its key (`get?_sorted`,
  `at?_sorted`), so what is computed from looked up values alone can be computed from the sorted
  value as well.
-/
import Mathlib.Data.List.Sort
import Mathlib.Data.String.Basic
import Relayout.Proofs.Json.Induction

namespace Relayout

namespace Json

mutual

/-- The value with the members of all objects in the order of their keys. -/
def sorted : Json → Json
  | .arr xs => .arr (sortedElements xs)
  | .obj ms => .obj ((sortedMembers ms).insertionSort (fun m n => m.1 ≤ n.1))
  | v => v

/-- The elements, each of them sorted. -/
def sortedElements : List Json → List Json
  | [] => []
  | x :: xs => sorted x :: sortedElements xs

/-- The members in their order, the value of each of them sorted. -/
def sortedMembers : Members → Members
  | [] => []
  | (k, v) :: ms => (k, sorted v) :: sortedMembers ms

end

theorem sortedElements_eq_map (xs : List Json) : sortedElements xs = xs.map sorted := by
  induction xs with
  | nil => rfl
  | cons x xs ih => rw [sortedElements, ih, List.map_cons]

theorem sortedMembers_eq_map (ms : Members) :
    sortedMembers ms = ms.map (fun m => (m.1, m.2.sorted)) := by
  induction ms with
  | nil => rfl
  | cons m ms ih => rw [sortedMembers, ih, List.map_cons]

theorem sortedMembers_append (ms ns : Members) :
    sortedMembers (ms ++ ns) = sortedMembers ms ++ sortedMembers ns := by
  simp only [sortedMembers_eq_map, List.map_append]

end Json

/-- The members in the order of their keys, the value of each of them sorted. -/
def Members.sorted (ms : Members) : Members :=
  (Json.sortedMembers ms).insertionSort (fun m n => m.1 ≤ n.1)

/-- What a value shows of itself when it is sorted. -/
def Shape.sorted : Shape → Shape
  | .obj keys => .obj (keys.insertionSort (· ≤ ·))
  | shape => shape

namespace Shape

theorem sorted_obj_eq_of_perm {keys keys' : List String} (h : keys.Perm keys') :
    (obj keys).sorted = (obj keys').sorted := by
  have hperm := ((List.perm_insertionSort (· ≤ ·) keys).trans h).trans
    (List.perm_insertionSort (· ≤ ·) keys').symm
  exact congrArg obj (hperm.eq_of_pairwise' (List.pairwise_insertionSort _ _)
    (List.pairwise_insertionSort _ _))

theorem sorted_sorted (shape : Shape) : shape.sorted.sorted = shape.sorted := by
  cases shape with
  | obj keys => exact sorted_obj_eq_of_perm (List.perm_insertionSort _ _)
  | null | bool | num | str | arr => rfl

end Shape

/-! ### Members -/

namespace Members

variable {ms ns : Members}

theorem get?_eq_some_iff (hnodup : ms.keys.Nodup) {key : String} {v : Json} :
    ms.get? key = some v ↔ (key, v) ∈ ms := by
  constructor
  · exact mem_of_get?_eq_some
  · intro hmem
    induction ms with
    | nil => cases hmem
    | cons m ms ih =>
      obtain ⟨k, w⟩ := m
      obtain ⟨hnew, hnodup⟩ : k ∉ keys ms ∧ (keys ms).Nodup := by simpa [keys] using hnodup
      rcases List.mem_cons.1 hmem with heq | hrest
      · cases heq
        rw [get?, if_pos rfl]
      · have hne : k ≠ key := by
          rintro rfl
          exact hnew (List.mem_map_of_mem hrest)
        rw [get?, if_neg hne]
        exact ih hnodup hrest

/-- What is looked up does not depend on the order of the members. -/
theorem get?_eq_of_perm (hnodup : ms.keys.Nodup) (h : ns.Perm ms) (key : String) :
    ns.get? key = ms.get? key := by
  have hnodup' : ns.keys.Nodup := (h.map Prod.fst).nodup_iff.2 hnodup
  apply Option.ext
  intro v
  rw [get?_eq_some_iff hnodup', get?_eq_some_iff hnodup, h.mem_iff]

theorem keys_sortedMembers (ms : Members) : keys (Json.sortedMembers ms) = ms.keys := by
  simp [keys, Json.sortedMembers_eq_map]

theorem keys_sorted (ms : Members) : ms.sorted.keys = ms.keys.insertionSort (· ≤ ·) := by
  have hmap : (ms.sorted.map Prod.fst)
      = ((Json.sortedMembers ms).map Prod.fst).insertionSort (· ≤ ·) :=
    List.map_insertionSort _ _ _ _ (fun _ _ _ _ => Iff.rfl)
  rw [← keys_sortedMembers ms]
  exact hmap

theorem keys_sorted_perm (ms : Members) : ms.sorted.keys.Perm ms.keys := by
  rw [keys_sorted]
  exact List.perm_insertionSort _ _

theorem nodup_keys_sorted (hnodup : ms.keys.Nodup) : ms.sorted.keys.Nodup :=
  ms.keys_sorted_perm.nodup_iff.2 hnodup

theorem has_sorted (ms : Members) (key : String) : ms.sorted.has key = ms.has key :=
  has_congr (ms.keys_sorted_perm.mem_iff)

theorem get?_sortedMembers (ms : Members) (key : String) :
    (Json.sortedMembers ms).get? key = (ms.get? key).map Json.sorted := by
  induction ms with
  | nil => rfl
  | cons m ms ih =>
    obtain ⟨k, v⟩ := m
    by_cases hk : k = key <;> simp [Json.sortedMembers, get?, hk, ih]

theorem get?_sorted (hnodup : ms.keys.Nodup) (key : String) :
    ms.sorted.get? key = (ms.get? key).map Json.sorted := by
  rw [← get?_sortedMembers]
  apply get?_eq_of_perm
  · rwa [keys_sortedMembers]
  · exact List.perm_insertionSort _ _

/-- Members are equal up to the order of keys exactly if what they have under each key is. -/
theorem sorted_eq_sorted_iff (hms : ms.keys.Nodup) (hns : ns.keys.Nodup) :
    ms.sorted = ns.sorted ↔
      ∀ key, (ms.get? key).map Json.sorted = (ns.get? key).map Json.sorted := by
  constructor
  · intro h key
    rw [← get?_sorted hms, ← get?_sorted hns, h]
  · intro h
    have hmsKeys := nodup_keys_sorted hms
    have hnsKeys := nodup_keys_sorted hns
    have hperm : ms.sorted.Perm ns.sorted := by
      rw [List.perm_ext_iff_of_nodup (hmsKeys.of_map _) (hnsKeys.of_map _)]
      rintro ⟨key, v⟩
      rw [← get?_eq_some_iff hmsKeys, ← get?_eq_some_iff hnsKeys, get?_sorted hms, get?_sorted hns,
        h]
    apply List.Perm.eq_of_pairwise _ (List.pairwise_insertionSort _ _)
      (List.pairwise_insertionSort _ _) hperm
    -- two members with the same key are the same
    rintro ⟨key, v⟩ ⟨key', w⟩ hm hn hle hge
    obtain rfl : key = key' := le_antisymm hle hge
    have hv := (get?_eq_some_iff hmsKeys).2 hm
    have hw := (get?_eq_some_iff hmsKeys).2 (hperm.mem_iff.2 hn)
    rw [hv] at hw
    exact congrArg (Prod.mk key) (Option.some.inj hw)

/-- What is appended to equal members, up to the order of keys, makes equal members. -/
theorem sorted_append_congr {ms' ns' : Members} (h : ms.sorted = ms'.sorted)
    (h' : ns.sorted = ns'.sorted) (hnodup : (ms ++ ns).keys.Nodup)
    (hnodup' : (ms' ++ ns').keys.Nodup) : (ms ++ ns).sorted = (ms' ++ ns').sorted := by
  rw [sorted_eq_sorted_iff hnodup hnodup']
  rw [keys_append] at hnodup hnodup'
  rw [sorted_eq_sorted_iff hnodup.of_append_left hnodup'.of_append_left] at h
  rw [sorted_eq_sorted_iff hnodup.of_append_right hnodup'.of_append_right] at h'
  intro key
  rw [get?_append, get?_append, Option.map_or, Option.map_or, h, h']

end Members

namespace Json

@[simp] theorem sorted_obj (ms : Members) : (obj ms).sorted = obj ms.sorted := rfl

@[simp] theorem sorted_arr (xs : List Json) : (arr xs).sorted = arr (xs.map sorted) := by
  rw [sorted, sortedElements_eq_map]

/-! ### Places -/

theorem shape_sorted (v : Json) : v.sorted.shape = v.shape.sorted := by
  cases v with
  | arr xs => simp [shape, Shape.sorted]
  | obj ms => simp [shape, Shape.sorted, Members.keys_sorted]
  | null | bool | num | str => rfl

theorem child?_sorted {v : Json} (hv : v.WellFormed) (name : String) :
    v.sorted.child? name = (v.child? name).map sorted := by
  cases v with
  | arr xs =>
    rw [sorted_arr]
    cases hi : Pointer.index? name <;> simp [child?, hi]
  | obj ms => exact Members.get?_sorted hv.1 name
  | null | bool | num | str => rfl

theorem at?_sorted {v : Json} (hv : v.WellFormed) (place : Place) :
    v.sorted.at? place = (v.at? place).map sorted := by
  induction place generalizing v with
  | nil => rfl
  | cons name place ih =>
    rw [at?_cons, at?_cons, child?_sorted hv]
    cases hchild : v.child? name with
    | none => rfl
    | some w => exact ih (hv.child hchild)

theorem at?_sorted_of_eq_some {v w : Json} (hv : v.WellFormed) {place : Place}
    (h : v.at? place = some w) : v.sorted.at? place = some w.sorted := by
  rw [at?_sorted hv, h, Option.map_some]

theorem shapeAt_sorted {v : Json} (hv : v.WellFormed) (place : Place) :
    v.sorted.shapeAt place = (v.shapeAt place).map Shape.sorted := by
  rw [shapeAt, shapeAt, at?_sorted hv, Option.map_map, Option.map_map]
  congr 1
  funext w
  exact shape_sorted w

theorem WellFormed.sorted {v : Json} (hv : v.WellFormed) : v.sorted.WellFormed := by
  induction v using induction_on with
  | null | bool | num | str => trivial
  | arr xs ih =>
    rw [sorted_arr, wellFormed_arr_iff]
    rw [wellFormed_arr_iff] at hv
    intro y hy
    obtain ⟨x, hx, rfl⟩ := List.mem_map.1 hy
    exact ih x hx (hv x hx)
  | obj ms ih =>
    rw [sorted_obj, wellFormed_obj_iff]
    rw [wellFormed_obj_iff] at hv
    refine ⟨Members.nodup_keys_sorted hv.1, ?_⟩
    intro n hn
    have hmem : n ∈ sortedMembers ms := (List.perm_insertionSort _ _).mem_iff.1 hn
    rw [sortedMembers_eq_map] at hmem
    obtain ⟨m, hm, rfl⟩ := List.mem_map.1 hmem
    exact ih m hm (hv.2 m hm)

/-! ### Equality -/

/-- Values are equal up to the order of keys exactly if they show the same, up to the order of keys,
    at every place. -/
theorem sorted_eq_sorted_iff {v w : Json} (hv : v.WellFormed) (hw : w.WellFormed) :
    v.sorted = w.sorted ↔
      ∀ place, (v.shapeAt place).map Shape.sorted = (w.shapeAt place).map Shape.sorted := by
  simp only [← shapeAt_sorted hv, ← shapeAt_sorted hw]
  constructor
  · intro h place
    rw [h]
  · exact eq_of_shapeAt_eq _ _ hv.sorted hw.sorted

/-- Values that show the same, up to the order of keys, and have equal children are equal. -/
theorem sorted_eq_of_children {v w : Json} (hv : v.WellFormed) (hw : w.WellFormed)
    (hshape : v.shape.sorted = w.shape.sorted)
    (hchildren : ∀ name a b, v.child? name = some a → w.child? name = some b →
      a.sorted = b.sorted) : v.sorted = w.sorted := by
  have hroot : v.sorted.shape = w.sorted.shape := by rw [shape_sorted, shape_sorted, hshape]
  apply eq_of_shapeAt_eq _ _ hv.sorted hw.sorted
  intro place
  cases place with
  | nil => exact congrArg some hroot
  | cons name rest =>
    have hchild : v.sorted.child? name = w.sorted.child? name := by
      cases hb : w.child? name with
      | none =>
        have hnone : w.sorted.child? name = none := by rw [child?_sorted hw, hb]; rfl
        rw [hnone, child?_eq_none_of_shape_eq hroot.symm hnone]
      | some b =>
        cases ha : v.child? name with
        | none =>
          have hnone : v.sorted.child? name = none := by rw [child?_sorted hv, ha]; rfl
          rw [hnone, child?_eq_none_of_shape_eq hroot hnone]
        | some a =>
          rw [child?_sorted hv, child?_sorted hw, ha, hb, Option.map_some, Option.map_some,
            hchildren name a b ha hb]
    rw [shapeAt, shapeAt, at?_cons, at?_cons, hchild]

/-- A value without repeated keys is sorted once and for all. -/
theorem sorted_sorted {v : Json} (hv : v.WellFormed) : v.sorted.sorted = v.sorted := by
  induction v using induction_on_children with
  | step v ih =>
    apply sorted_eq_of_children hv.sorted hv
    · rw [shape_sorted, Shape.sorted_sorted]
    · intro name a b ha hb
      rw [child?_sorted hv, hb, Option.map_some] at ha
      cases ha
      exact ih name b hb (hv.child hb)

end Json

end Relayout
