/-
  Relayout/Proofs/Migration/Discriminant.lean
  ===========================================
  **The discriminants of a choice outlast a migration.**

  The label of an element is the title of the one discriminant of its choice.  No rule claims
  the keys that lead to a discriminant, and nothing that is added has a `const`.  So the
  titles stay the same when a document is reworked, as long as no visited object is missing
  (`Reworks.discriminantTitles_eq`), and an element that has been migrated once is not given
  a label by a second migration that it was not given by the first.
-/
import Relayout.Proofs.Migration.Rework

namespace Relayout

theorem Members.filterMap_eq_flatMap_keys {α : Type} {ms : Members} (hnodup : ms.keys.Nodup)
    (f : Json → Option α) :
    ms.filterMap (fun m => f m.2)
      = ms.keys.flatMap (fun key => ((ms.get? key).map (fun v => (f v).toList)).getD []) := by
  rw [Members.flatMap_keys hnodup (fun _ v => (f v).toList), List.filterMap_eq_flatMap_toList]

namespace Table.Reworks

variable {table : Table}

/-! ### One property -/

theorem discriminantTitle?_eq {a b : Json} (h : table.Reworks a b) :
    discriminantTitle? b = discriminantTitle? a := by
  cases h.root with
  | null | bool | num | str | arr => rfl
  | @obj ms ns hkeys =>
    have hconst : Members.has ns "const" = Members.has ms "const" := by
      apply Members.has_congr
      exact hkeys.mem_iff (table.recognizes_eq_false_of_builtin (by decide)) (by decide)
    have htitle : ns.text? "title" = ms.text? "title" :=
      h.text?_eq (table.recognizes_eq_false_of_builtin (by decide)) (by decide)
    unfold Members.text? at htitle
    simp only [discriminantTitle?, hconst, htitle]

theorem discriminantTitle?_of_inert {v : Json} (h : v.shape.Inert) :
    discriminantTitle? v = none := by
  cases v with
  | obj ms =>
    have hconst : Members.has ms "const" = false := by
      rw [Bool.eq_false_iff, Ne, Members.has_iff_mem_keys]
      intro hmem
      have hkey : "const" ∈ LayoutNode.keys := h (Members.keys ms) rfl hmem
      exact absurd hkey (by decide)
    simp [discriminantTitle?, hconst]
  | null | bool | num | str | arr => rfl

/-- The titles of the discriminants among some properties. -/
theorem filterMap_discriminantTitle?_eq {ms ns : Members} (h : table.Reworks (.obj ms) (.obj ns))
    (hsurvives : (Treatment.inRole .schemaMap).Survives (.obj ms) (.obj ns))
    (hms : (Json.obj ms).WellFormed) (hns : (Json.obj ns).WellFormed) :
    ns.filterMap (fun p => discriminantTitle? p.2)
      = ms.filterMap (fun p => discriminantTitle? p.2) := by
  rw [Members.filterMap_eq_flatMap_keys hms.1, Members.filterMap_eq_flatMap_keys hns.1]
  apply h.flatMap_entries_eq hsurvives
  · intro key a b ha hb
    rw [show ms.get? key = some a from ha, show ns.get? key = some b from hb, Option.map_some,
      Option.map_some, (h.child ha hb).discriminantTitle?_eq]
  · intro key a ha hnot
    rw [show ms.get? key = some a from ha]
    cases a with
    | obj node => exact absurd rfl (hnot node)
    | null | bool | num | str | arr => rfl
  · intro key b hb hinert
    rw [show ns.get? key = some b from hb, Option.map_some, discriminantTitle?_of_inert hinert]
    rfl

/-! ### A choice -/

end Table.Reworks

/-- The titles of the discriminants of an alternative. -/
def branchTitles (branch : Json) : List String :=
  match (branch.get? "properties").bind Json.asMembers? with
  | some properties => properties.filterMap (fun p => discriminantTitle? p.2)
  | none => []

theorem discriminantTitles_eq (element : Members) :
    discriminantTitles element
      = (((element.get? "oneOf").bind Json.asElements?).bind List.head?).elim [] branchTitles := by
  have hproperties : firstBranchProperties? element
      = (((element.get? "oneOf").bind Json.asElements?).bind List.head?).bind
          (fun first => (first.get? "properties").bind Json.asMembers?) := by
    simp only [firstBranchProperties?, Option.bind_eq_bind, Option.bind_assoc]
  rw [discriminantTitles, hproperties]
  cases ((element.get? "oneOf").bind Json.asElements?).bind List.head? with
  | none => rfl
  | some first => rfl

namespace Table.Reworks

variable {table : Table}

theorem branchTitles_eq {a b : Json} (h : table.Reworks a b)
    (hsurvives : (Treatment.inRole .schema).Survives a b) (ha : a.WellFormed) (hb : b.WellFormed) :
    branchTitles b = branchTitles a := by
  cases h.root with
  | null | bool | num | str | arr => rfl
  | @obj ms ns hkeys =>
    have hclaimed : table.recognizes "properties" = false :=
      table.recognizes_eq_false_of_builtin (by decide)
    unfold branchTitles
    rcases h.child_cases hclaimed (by decide) with ⟨hp, hq⟩ | ⟨p, q, hp, hq, hchild⟩
    · rw [show (Json.obj ms).get? "properties" = none from hp,
        show (Json.obj ns).get? "properties" = none from hq]
    · rw [show (Json.obj ms).get? "properties" = some p from hp,
        show (Json.obj ns).get? "properties" = some q from hq]
      have hsurvivesChild := hsurvives.child hp hq
      have hpWell := ha.child hp
      have hqWell := hb.child hq
      cases hchild.root with
      | null | bool | num | str | arr => rfl
      | obj => exact hchild.filterMap_discriminantTitle?_eq hsurvivesChild hpWell hqWell

/-- The discriminants of the choice of a visited element stay. -/
theorem discriminantTitles_eq {ms ns : Members} (h : table.Reworks (.obj ms) (.obj ns))
    {t : Treatment} (ht : t.visits = true) (hsurvives : t.Survives (.obj ms) (.obj ns))
    (hms : (Json.obj ms).WellFormed) (hns : (Json.obj ns).WellFormed) :
    discriminantTitles ns = discriminantTitles ms := by
  have hclaimed : table.recognizes "oneOf" = false :=
    table.recognizes_eq_false_of_builtin (by decide)
  rw [Relayout.discriminantTitles_eq, Relayout.discriminantTitles_eq]
  rcases h.child_cases hclaimed (by decide) with ⟨hp, hq⟩ | ⟨p, q, hp, hq, hchild⟩
  · rw [show ms.get? "oneOf" = none from hp, show ns.get? "oneOf" = none from hq]
  · rw [show ms.get? "oneOf" = some p from hp, show ns.get? "oneOf" = some q from hq]
    have hsurvivesChild := hsurvives.child hp hq
    rw [Treatment.child_of_visits ht] at hsurvivesChild
    have hpWell := hms.child hp
    have hqWell := hns.child hq
    cases hchild.root with
    | null | bool | num | str | obj => rfl
    | @arr xs ys hlength =>
      cases xs with
      | nil =>
        obtain rfl : ys = [] := List.length_eq_zero_iff.1 hlength
        rfl
      | cons x xs =>
        cases ys with
        | nil => cases hlength
        | cons y ys =>
          have hx : (Json.arr (x :: xs)).child? "0" = some x := rfl
          have hy : (Json.arr (y :: ys)).child? "0" = some y := rfl
          exact (hchild.child hx hy).branchTitles_eq (hsurvivesChild.child hx hy) (hpWell.child hx)
            (hqWell.child hy)

end Table.Reworks

end Relayout
