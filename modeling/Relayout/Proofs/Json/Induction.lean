/-
  Relayout/Proofs/Json/Induction.lean
  ===================================
  **Induction over JSON values.**

  A property that passes from the elements to the array, and from the values of the members to
  the object, holds of every value.  A value without repeated keys is a case in point: each
  of its members and elements is one (`Json.WellFormed.child`, `Json.WellFormed.at`).
-/
import Mathlib.Data.List.Basic
import Relayout.Proofs.Json.Place

namespace Relayout

namespace Json

@[elab_as_elim]
theorem induction_on {motive : Json → Prop} (v : Json) (null : motive .null)
    (bool : ∀ b, motive (.bool b)) (num : ∀ n, motive (.num n)) (str : ∀ s, motive (.str s))
    (arr : ∀ xs, (∀ x ∈ xs, motive x) → motive (.arr xs))
    (obj : ∀ ms, (∀ m ∈ ms, motive m.2) → motive (.obj ms)) : motive v :=
  @Json.rec motive (fun xs => ∀ x ∈ xs, motive x) (fun ms => ∀ m ∈ ms, motive m.2)
    (fun m => motive m.2) null bool num str arr obj
    (fun _ hx => absurd hx List.not_mem_nil)
    (fun _ _ hhead htail x hx => by
      rcases List.mem_cons.1 hx with rfl | hx
      · exact hhead
      · exact htail x hx)
    (fun _ hm => absurd hm List.not_mem_nil)
    (fun _ _ hhead htail m hm => by
      rcases List.mem_cons.1 hm with rfl | hm
      · exact hhead
      · exact htail m hm)
    (fun _ _ hv => hv) v

end Json

namespace Members

theorem mem_of_get?_eq_some {ms : Members} {key : String} {v : Json}
    (h : ms.get? key = some v) : (key, v) ∈ ms := by
  induction ms with
  | nil => cases h
  | cons m ms ih =>
    obtain ⟨k, w⟩ := m
    by_cases hk : k = key
    · rw [get?, if_pos hk] at h
      cases h
      exact hk ▸ List.mem_cons_self
    · rw [get?, if_neg hk] at h
      exact List.mem_cons_of_mem _ (ih h)

theorem has_congr {ms ns : Members} {key : String} (h : key ∈ ns.keys ↔ key ∈ ms.keys) :
    ns.has key = ms.has key := by
  rw [Bool.eq_iff_iff, has_iff_mem_keys, has_iff_mem_keys, h]

/-- Where no key is repeated, the members can be listed by their keys. -/
theorem flatMap_keys {α : Type} {ms : Members} (hnodup : ms.keys.Nodup)
    (f : String → Json → List α) :
    ms.keys.flatMap (fun key => ((ms.get? key).map (f key)).getD [])
      = ms.flatMap (fun m => f m.1 m.2) := by
  induction ms with
  | nil => rfl
  | cons m ms ih =>
    obtain ⟨k, v⟩ := m
    obtain ⟨hnew, hnodup⟩ : k ∉ Members.keys ms ∧ (Members.keys ms).Nodup := by
      simpa [Members.keys] using hnodup
    have hkeys : Members.keys ((k, v) :: ms) = k :: Members.keys ms := rfl
    rw [hkeys, List.flatMap_cons, List.flatMap_cons, ← ih hnodup]
    congr 1
    · simp [Members.get?]
    · apply List.flatMap_congr
      intro key hkey
      have hne : ¬ k = key := by
        rintro rfl
        exact hnew hkey
      rw [Members.get?, if_neg hne]

end Members

namespace Json

/-! ### Values by their children -/

@[elab_as_elim]
theorem induction_on_children {motive : Json → Prop} (v : Json)
    (step : ∀ v, (∀ name w, v.child? name = some w → motive w) → motive v) : motive v := by
  induction v using induction_on with
  | null | bool | num | str => exact step _ (fun _ _ h => by cases h)
  | arr xs ih =>
    refine step _ (fun name w h => ?_)
    obtain ⟨i, -, hx⟩ := Option.bind_eq_some_iff.1 h
    exact ih w (List.mem_of_getElem? hx)
  | obj ms ih => exact step _ (fun name w h => ih (name, w) (Members.mem_of_get?_eq_some h))

/-! ### Parts of values without repeated keys -/

theorem elementsWellFormed_iff {xs : List Json} :
    ElementsWellFormed xs ↔ ∀ x ∈ xs, x.WellFormed := by
  induction xs with
  | nil => simp [ElementsWellFormed]
  | cons x xs ih => simp [ElementsWellFormed, ih]

theorem membersWellFormed_iff {ms : Members} :
    MembersWellFormed ms ↔ ∀ m ∈ ms, m.2.WellFormed := by
  induction ms with
  | nil => simp [MembersWellFormed]
  | cons m ms ih => simp [MembersWellFormed, ih]

theorem wellFormed_obj_iff {ms : Members} :
    (obj ms).WellFormed ↔ ms.keys.Nodup ∧ ∀ m ∈ ms, m.2.WellFormed :=
  and_congr_right (fun _ => membersWellFormed_iff)

theorem wellFormed_arr_iff {xs : List Json} : (arr xs).WellFormed ↔ ∀ x ∈ xs, x.WellFormed :=
  elementsWellFormed_iff

theorem WellFormed.child {v w : Json} (hv : v.WellFormed) {name : String}
    (h : v.child? name = some w) : w.WellFormed := by
  cases v with
  | obj ms => exact membersWellFormed_iff.1 hv.2 _ (Members.mem_of_get?_eq_some h)
  | arr xs =>
    obtain ⟨i, -, hx⟩ := Option.bind_eq_some_iff.1 h
    exact elementsWellFormed_iff.1 hv w (List.mem_of_getElem? hx)
  | null | bool | num | str => cases h

theorem WellFormed.at {v w : Json} (hv : v.WellFormed) {place : Place}
    (h : v.at? place = some w) : w.WellFormed := by
  induction place generalizing v with
  | nil =>
    cases h
    exact hv
  | cons name place ih =>
    obtain ⟨child, hchild, hat⟩ := Option.bind_eq_some_iff.1 h
    exact ih (hv.child hchild) hat

/-! ### Inserted members -/

theorem mem_insert {ms : Members} {key : String} {value : Json} {m : String × Json}
    (h : m ∈ ms.insert key value) : m ∈ ms ∨ m.2 = value := by
  induction ms with
  | nil =>
    rw [List.mem_singleton.1 h]
    exact Or.inr rfl
  | cons n ms ih =>
    obtain ⟨k, v⟩ := n
    rw [Members.insert] at h
    split at h
    · rcases List.mem_cons.1 h with rfl | hrest
      · exact Or.inr rfl
      · exact Or.inl (List.mem_cons_of_mem _ hrest)
    · rcases List.mem_cons.1 h with rfl | hrest
      · exact Or.inl List.mem_cons_self
      · exact (ih hrest).imp_left (List.mem_cons_of_mem _)

theorem WellFormed.insert {ms : Members} (hms : (obj ms).WellFormed) {value : Json}
    (hvalue : value.WellFormed) (key : String) : (obj (ms.insert key value)).WellFormed := by
  rw [wellFormed_obj_iff] at hms ⊢
  constructor
  · rw [Members.keys_insert]
    split
    · exact hms.1
    · rename_i hhas
      rw [Members.has_iff_mem_keys] at hhas
      rw [List.nodup_append]
      refine ⟨hms.1, by simp, ?_⟩
      rintro other hother _ hnew rfl
      exact hhas (List.mem_singleton.1 hnew ▸ hother)
  · intro m hm
    rcases mem_insert hm with hold | heq
    · exact hms.2 m hold
    · exact heq ▸ hvalue

/-- Members that are collected one by one repeat no key, whatever was written. -/
theorem wellFormed_ofList {written : List (String × Json)}
    (h : ∀ m ∈ written, m.2.WellFormed) : (obj (Members.ofList written)).WellFormed := by
  have hcollect (acc : Members) (hacc : (obj acc).WellFormed) :
      (obj (written.foldl (fun acc m => Members.insert acc m.1 m.2) acc)).WellFormed := by
    induction written generalizing acc with
    | nil => exact hacc
    | cons m rest ih =>
      obtain ⟨hm, hrest⟩ := List.forall_mem_cons.1 h
      exact ih hrest _ (hacc.insert hm m.1)
  have hempty : (obj []).WellFormed := ⟨List.nodup_nil, trivial⟩
  exact hcollect [] hempty

end Json

end Relayout
