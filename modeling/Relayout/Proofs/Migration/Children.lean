/-
  Relayout/Proofs/Migration/Children.lean
  =======================================
  **A visit is made of visits of children.**

  In which order a visit takes the children of a value, and how each is treated, depends on
  how the value itself is.  For values without repeated keys one equation says so for all
  roles (`Json.visits_eq`).  What is said of visits is an induction along it: an object is
  visited exactly at the places that are treated as schemas (`Json.mem_visits_iff`).
-/
import Relayout.Proofs.Json.Induction
import Relayout.Proofs.Migration.Visit

namespace Relayout

/-- The names of the children that are visited, in order. -/
def Treatment.names : Treatment → Json → List String
  | .inRole .schema, .obj _ | .inRole .schemaOrList, .obj _ | .labelled, .obj _ => traversalOrder
  | .inRole .schemaMap, .obj ms => Members.keys ms
  | .inRole .schemaList, .arr xs | .inRole .schemaOrList, .arr xs
  | .inRole .labelledList, .arr xs => (List.range xs.length).map toString
  | _, _ => []

namespace Json

open Dialect (inTraversalOrder)

/-- The visit of a value itself, children left aside. -/
def ownVisit (t : Treatment) (place : Place) : Json → List Visit
  | .obj ms => if t.visits then [⟨place, ms⟩] else []
  | _ => []

/-- The visits in the child with a name. -/
def childVisits (t : Treatment) (place : Place) (v : Json) (name : String) : List Visit :=
  ((v.child? name).map (fun w => w.visits (t.child v name).role (place ++ [name]))).getD []

/-! ### The equation -/

theorem visitsEntries_eq_flatMap (place : Place) (ms : Members) :
    visitsEntries place ms = ms.flatMap (fun m => m.2.visits .schema (place ++ [m.1])) := by
  induction ms with
  | nil => rfl
  | cons m ms ih => rw [visitsEntries, List.flatMap_cons, ih]

theorem visitsEntries_eq {ms : Members} (hnodup : ms.keys.Nodup) (place : Place) :
    visitsEntries place ms = ms.keys.flatMap (fun key =>
      ((ms.get? key).map (fun w => w.visits .schema (place ++ [key]))).getD []) := by
  rw [visitsEntries_eq_flatMap]
  exact (Members.flatMap_keys hnodup (fun key w => w.visits .schema (place ++ [key]))).symm

theorem visitsElements_eq (place : Place) (i : Nat) (xs : List Json) :
    visitsElements place i xs = (List.range xs.length).flatMap (fun j =>
      (xs[j]?.map (fun x => x.visits .schema (place ++ [toString (i + j)]))).getD []) := by
  induction xs generalizing i with
  | nil => rfl
  | cons x xs ih =>
    rw [visitsElements, ih, List.length_cons, List.range_succ_eq_map, List.flatMap_cons,
      List.flatMap_map]
    congr 1
    refine List.flatMap_congr (fun j _ => ?_)
    have hindex : i + 1 + j = i + (j + 1) := by omega
    rw [List.getElem?_cons_succ, hindex]

theorem visitsElements_zero_eq (place : Place) (t : Treatment) (xs : List Json)
    (hrole : ∀ name, (t.child (.arr xs) name).role = .schema) :
    visitsElements place 0 xs
      = ((List.range xs.length).map toString).flatMap (childVisits t place (.arr xs)) := by
  rw [visitsElements_eq, List.flatMap_map]
  refine List.flatMap_congr (fun j _ => ?_)
  rw [childVisits, hrole, child?, Pointer.index?_toString, Option.bind_some, Nat.zero_add]

/-- What is visited in a value: what is visited in its children in order, and the value itself. -/
theorem visits_eq (t : Treatment) {v : Json} (hv : v.WellFormed) (place : Place) :
    v.visits t.role place = (t.names v).flatMap (childVisits t place v) ++ v.ownVisit t place := by
  cases v with
  | null | bool | num | str => cases t with
    | inRole role => cases role <;> rfl
    | labelled => rfl
  | arr xs =>
    cases t with
    | inRole role =>
      cases role with
      | schema | schemaMap | verbatim => rfl
      | schemaList | schemaOrList | labelledList =>
        simp only [ownVisit, List.append_nil]
        exact visitsElements_zero_eq place _ xs (fun _ => rfl)
    | labelled => rfl
  | obj ms =>
    cases ht : t.visits with
    | true =>
      have hmembers : inTraversalOrder (visitsMembers place ms)
          = traversalOrder.flatMap (childVisits t place (.obj ms)) := by
        refine List.flatMap_congr (fun keyword _ => ?_)
        rw [lookup_visitsMembers, childVisits, Treatment.child_of_visits ht]
        rfl
      have hschema : inTraversalOrder (visitsMembers place ms) ++ [⟨place, ms⟩]
          = traversalOrder.flatMap (childVisits t place (.obj ms))
            ++ (obj ms).ownVisit t place := by
        rw [hmembers, ownVisit, ht, if_pos rfl]
      rcases Treatment.of_visits_eq_true ht with rfl | rfl | rfl <;> exact hschema
    | false =>
      rw [ownVisit, ht]
      rcases Treatment.of_visits_eq_false ht with rfl | rfl | rfl | rfl
      · exact (visitsEntries_eq hv.1 place).trans (List.append_nil _).symm
      · rfl
      · rfl
      · rfl

/-! ### Visited places -/

theorem mem_childVisits {t : Treatment} {place : Place} {v : Json} {name : String}
    {visit : Visit} :
    visit ∈ childVisits t place v name ↔
      ∃ w, v.child? name = some w ∧ visit ∈ w.visits (t.child v name).role (place ++ [name]) := by
  unfold childVisits
  cases v.child? name <;> simp

/-- The objects that are visited are those at places that are treated as schemas. -/
theorem mem_visits_iff {t : Treatment} {v : Json} (hv : v.WellFormed) (start : Place)
    {visit : Visit} :
    visit ∈ v.visits t.role start ↔
      ∃ below, visit.place = start ++ below ∧ v.at? below = some (.obj visit.node) ∧
        (t.below v below).visits = true := by
  constructor
  · intro h
    induction v using induction_on_children generalizing t start with
    | step v ih =>
      rw [visits_eq t hv, List.mem_append] at h
      rcases h with hchild | hself
      · obtain ⟨name, -, hvisit⟩ := List.mem_flatMap.1 hchild
        obtain ⟨w, hw, hvisit⟩ := mem_childVisits.1 hvisit
        obtain ⟨below, hplace, hat, hvisits⟩ := ih name w hw (hv.child hw) (start ++ [name]) hvisit
        refine ⟨name :: below, ?_, ?_, ?_⟩
        · rw [hplace, List.append_assoc, List.singleton_append]
        · rw [at?_cons, hw, Option.bind_some, hat]
        · simpa only [Treatment.below, hw] using hvisits
      · cases v with
        | obj ms =>
          cases ht : t.visits with
          | true =>
            rw [ownVisit, ht, if_pos rfl, List.mem_singleton] at hself
            subst hself
            exact ⟨[], (List.append_nil start).symm, rfl, ht⟩
          | false => simp [ownVisit, ht] at hself
        | null | bool | num | str | arr => cases hself
  · rintro ⟨below, hplace, hat, hvisits⟩
    have hmem := mem_visits_of_below start hat hvisits
    rwa [← hplace] at hmem

theorem mem_visits_schema_iff {v : Json} (hv : v.WellFormed) (start : Place) {visit : Visit} :
    visit ∈ v.visits .schema start ↔
      ∃ below, visit.place = start ++ below ∧ v.at? below = some (.obj visit.node) ∧
        ((Treatment.inRole .schema).below v below).visits = true :=
  mem_visits_iff (t := .inRole .schema) hv start

end Json

end Relayout
