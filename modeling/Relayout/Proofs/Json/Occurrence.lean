/-
  Relayout/Proofs/Json/Occurrence.lean
  ====================================
  **The members of a value in document order.**

  `Json.occurrences` lists the members of all objects in a value, at any depth: the place of the
  object and the key.  In a value without repeated keys these are exactly the members that there
  are (`Json.mem_occurrences_iff`), each listed once, and each before those that come after it in
  the document (`Json.pairwise_occurrences`): a place comes before those below it, and the places
  below one child before those below a later one (`Json.Precedes`).
-/
import Relayout.Proofs.Json.KeyOrder
import Relayout.Proofs.Json.Objects

namespace Relayout

namespace Json

/-- The names of the children of a value, in order. -/
def childNames : Json → List String
  | .obj ms => Members.keys ms
  | .arr xs => (List.range xs.length).map toString
  | .null | .bool _ | .num _ | .str _ => []

/-- One place of a value comes before another in the document. -/
inductive Precedes : Json → Place → Place → Prop where
  | above {v : Json} {place : Place} : place ≠ [] → Precedes v [] place
  | inside {v w : Json} {name : String} {place place' : Place} : v.child? name = some w →
    Precedes w place place' → Precedes v (name :: place) (name :: place')
  | apart {v : Json} {name other : String} (place place' : Place) :
    [name, other].Sublist v.childNames → Precedes v (name :: place) (other :: place')

/-! ### Members at any depth -/

/-- What is found in a child, seen from its parent. -/
def under (name : String) (found : List (Place × String)) : List (Place × String) :=
  found.map (fun m => (name :: m.1, m.2))

mutual

/-- The members of all objects in a value. -/
def occurrences : Json → List (Place × String)
  | .obj ms => memberOccurrences ms
  | .arr xs => elementOccurrences 0 xs
  | .null | .bool _ | .num _ | .str _ => []

/-- Members, each followed by those in its value. -/
def memberOccurrences : Members → List (Place × String)
  | [] => []
  | (k, v) :: ms => ([], k) :: under k (occurrences v) ++ memberOccurrences ms

/-- The members in elements, from an index on. -/
def elementOccurrences : Nat → List Json → List (Place × String)
  | _, [] => []
  | i, x :: xs => under (toString i) (occurrences x) ++ elementOccurrences (i + 1) xs

end

theorem memberOccurrences_eq (ms : Members) : memberOccurrences ms
    = ms.flatMap (fun m => ([], m.1) :: under m.1 (occurrences m.2)) := by
  induction ms with
  | nil => rfl
  | cons m ms ih => rw [memberOccurrences, ih, List.flatMap_cons]

theorem elementOccurrences_eq (i : Nat) (xs : List Json) : elementOccurrences i xs
    = (xs.zipIdx i).flatMap (fun x => under (toString x.2) (occurrences x.1)) := by
  induction xs generalizing i with
  | nil => rfl
  | cons x xs ih => rw [elementOccurrences, ih, List.zipIdx_cons, List.flatMap_cons]

theorem mem_under_iff {name key : String} {place : Place} {found : List (Place × String)} :
    (place, key) ∈ under name found ↔ ∃ rest, place = name :: rest ∧ (rest, key) ∈ found := by
  simp only [under, List.mem_map, Prod.mk.injEq]
  constructor
  · rintro ⟨⟨rest, other⟩, hmem, rfl, rfl⟩
    exact ⟨rest, rfl, hmem⟩
  · rintro ⟨rest, rfl, hmem⟩
    exact ⟨(rest, key), hmem, rfl, rfl⟩

/-- The members of a value itself are those of an object. -/
theorem nil_mem_occurrences_iff {v : Json} {key : String} :
    ([], key) ∈ v.occurrences ↔ ∃ node : Members, v = .obj node ∧ key ∈ node.keys := by
  cases v with
  | obj ms =>
    simp only [occurrences, memberOccurrences_eq, List.mem_flatMap, List.mem_cons,
      Prod.mk.injEq, true_and, mem_under_iff, List.nil_eq, reduceCtorEq, false_and,
      exists_false, or_false, obj.injEq, exists_eq_left', Members.keys, List.mem_map]
    simp only [eq_comm]
  | arr xs => simp [occurrences, elementOccurrences_eq, mem_under_iff]
  | null | bool | num | str => simp [occurrences]

/-- The members further down are those of the children. -/
theorem cons_mem_occurrences_iff {v : Json} (hv : v.WellFormed) {name key : String}
    {rest : Place} : (name :: rest, key) ∈ v.occurrences ↔
      ∃ w, v.child? name = some w ∧ (rest, key) ∈ w.occurrences := by
  cases v with
  | obj ms =>
    simp only [occurrences, memberOccurrences_eq, List.mem_flatMap, List.mem_cons,
      Prod.mk.injEq, reduceCtorEq, false_and, false_or, mem_under_iff, List.cons.injEq,
      child?, Members.get?_eq_some_iff hv.1]
    constructor
    · rintro ⟨⟨k, w⟩, hm, _, ⟨rfl, rfl⟩, hmem⟩
      exact ⟨w, hm, hmem⟩
    · rintro ⟨w, hm, hmem⟩
      exact ⟨(name, w), hm, rest, ⟨rfl, rfl⟩, hmem⟩
  | arr xs =>
    simp only [occurrences, elementOccurrences_eq, List.mem_flatMap, mem_under_iff,
      List.cons.injEq, child?, Option.bind_eq_some_iff, Pointer.index?_eq_some_iff]
    constructor
    · rintro ⟨⟨x, i⟩, hx, _, ⟨rfl, rfl⟩, hmem⟩
      exact ⟨x, ⟨i, rfl, List.mem_zipIdx_iff_getElem?.1 hx⟩, hmem⟩
    · rintro ⟨x, ⟨i, rfl, hx⟩, hmem⟩
      exact ⟨(x, i), List.mem_zipIdx_iff_getElem?.2 hx, rest, ⟨rfl, rfl⟩, hmem⟩
  | null | bool | num | str => simp [occurrences, child?]

/-- Exactly the members that objects have are listed, each at the place of its object. -/
theorem mem_occurrences_iff {v : Json} (hv : v.WellFormed) {place : Place} {key : String} :
    (place, key) ∈ v.occurrences ↔
      ∃ node : Members, v.at? place = some (.obj node) ∧ key ∈ node.keys := by
  induction place generalizing v with
  | nil => simp only [nil_mem_occurrences_iff, at?_nil, Option.some.injEq]
  | cons name rest ih =>
    simp only [cons_mem_occurrences_iff hv, at?_cons, Option.bind_eq_some_iff]
    constructor
    · rintro ⟨w, hw, hmem⟩
      obtain ⟨node, hat, hkey⟩ := (ih (hv.child hw)).1 hmem
      exact ⟨node, ⟨w, hw, hat⟩, hkey⟩
    · rintro ⟨node, ⟨w, hw, hat⟩, hkey⟩
      exact ⟨w, hw, (ih (hv.child hw)).2 ⟨node, hat, hkey⟩⟩

/-! ### Document order -/

/-- The place of a member. -/
def memberPlace (m : Place × String) : Place := m.1 ++ [m.2]

theorem pairwise_under {v w : Json} {name : String} (hw : v.child? name = some w)
    (h : w.occurrences.Pairwise (fun a b => w.Precedes (memberPlace a) (memberPlace b))) :
    (under name w.occurrences).Pairwise
      (fun a b => v.Precedes (memberPlace a) (memberPlace b)) := by
  rw [under, List.pairwise_map]
  exact h.imp (fun hab => .inside hw hab)

/-- Names of different children, in order, stand apart. -/
theorem precedes_of_mem_under {v : Json} {name other : String}
    (hsublist : [name, other].Sublist v.childNames) {found found' : List (Place × String)}
    {a b : Place × String} (ha : a ∈ ([], name) :: under name found)
    (hb : b ∈ ([], other) :: under other found') :
    v.Precedes (memberPlace a) (memberPlace b) := by
  have hplace {key : String} {found : List (Place × String)} {m : Place × String}
      (hm : m ∈ ([], key) :: under key found) : ∃ rest, memberPlace m = key :: rest := by
    rcases List.mem_cons.1 hm with rfl | hbelow
    · exact ⟨[], rfl⟩
    · obtain ⟨rest, hrest, -⟩ := mem_under_iff.1 hbelow
      exact ⟨rest ++ [m.2], by rw [memberPlace, hrest]; rfl⟩
  obtain ⟨rest, ha⟩ := hplace ha
  obtain ⟨rest', hb⟩ := hplace hb
  rw [ha, hb]
  exact .apart rest rest' hsublist

/-- The members are listed in document order. -/
theorem pairwise_occurrences {v : Json} (hv : v.WellFormed) :
    v.occurrences.Pairwise (fun a b => v.Precedes (memberPlace a) (memberPlace b)) := by
  induction v using induction_on_children with
  | step v ih =>
    cases v with
    | null | bool | num | str => exact .nil
    | obj ms =>
      rw [occurrences, memberOccurrences_eq, List.pairwise_flatMap]
      constructor
      · intro m hm
        have hchild : (obj ms).child? m.1 = some m.2 := (Members.get?_eq_some_iff hv.1).2 hm
        have hbelow := pairwise_under hchild (ih m.1 m.2 hchild (hv.child hchild))
        refine List.pairwise_cons.2 ⟨?_, hbelow⟩
        rintro ⟨place, key⟩ hmem
        obtain ⟨rest, rfl, -⟩ := mem_under_iff.1 hmem
        exact .inside hchild (.above (by simp))
      · rw [List.pairwise_iff_forall_sublist]
        intro m n hsublist a ha b hb
        have hnames : [m.1, n.1].Sublist (obj ms).childNames := hsublist.map Prod.fst
        exact precedes_of_mem_under hnames ha hb
    | arr xs =>
      rw [occurrences, elementOccurrences_eq, List.pairwise_flatMap]
      constructor
      · rintro ⟨x, i⟩ hx
        have hchild : (arr xs).child? (toString i) = some x :=
          (child?_toString xs i).trans (List.mem_zipIdx_iff_getElem?.1 hx)
        exact pairwise_under hchild (ih _ x hchild (hv.child hchild))
      · have hnames : (arr xs).childNames = xs.zipIdx.map (fun x => toString x.2) := by
          rw [childNames, List.range_eq_range', ← List.zipIdx_map_snd 0 xs, List.map_map]
          rfl
        rw [List.pairwise_iff_forall_sublist]
        intro x y hsublist a ha b hb
        refine precedes_of_mem_under ?_ (List.mem_cons_of_mem _ ha) (List.mem_cons_of_mem _ hb)
        rw [hnames]
        exact hsublist.map (fun x => toString x.2)

/-! ### No repetition -/

theorem nodup_childNames {v : Json} (hv : v.WellFormed) : v.childNames.Nodup := by
  cases v with
  | obj ms => exact hv.1
  | arr xs =>
    apply List.Nodup.map _ List.nodup_range
    intro i j hij
    have hindex := congrArg Pointer.index? hij
    rwa [Pointer.index?_toString, Pointer.index?_toString, Option.some.injEq] at hindex
  | null | bool | num | str => exact List.nodup_nil

/-- No place comes before itself. -/
theorem Precedes.ne {v : Json} {place place' : Place} (h : v.Precedes place place')
    (hv : v.WellFormed) : place ≠ place' := by
  induction h with
  | above hne => exact hne.symm
  | inside hchild _ ih =>
    intro heq
    exact ih (hv.child hchild) (List.cons.inj heq).2
  | apart place place' hsublist =>
    intro heq
    have hnodup := hsublist.nodup (nodup_childNames hv)
    rw [(List.cons.inj heq).1] at hnodup
    simp at hnodup

end Json

end Relayout
