/-
  Relayout/Proofs/Migration/Variation.lean
  ========================================
  **What a migration makes of values that vary in their definitions.**

  Two values that vary at an entry of definitions are migrated to values that vary there and
  nowhere else, by the same two values (`Varies.treat`), unless the map of definitions is itself
  visited as a schema or goes with a key that a rule claims.  The reason is that nothing that is
  made of an object depends on what lies so deep in it: neither the layout of its extensions nor
  its label (`Varies.labelling_eq`).

  Putting definitions back keeps to this (`Varies.splice`), and so does the identity of the root.
-/
import Relayout.Proofs.Extension.Reading
import Relayout.Proofs.Migration.Settled
import Relayout.Proofs.Migration.Splice
import Relayout.Proofs.Migration.Yield

namespace Relayout

namespace Json

variable {a b v w : Json} {name : String} {place : Place} {ms ns : Members}

theorem Varies.obj_or_arr (h : Varies a b (name :: place) v w) :
    (∃ ms ns : Members, v = .obj ms ∧ w = .obj ns) ∨ ∃ xs ys, v = .arr xs ∧ w = .arr ys := by
  cases h with
  | member => exact Or.inl ⟨_, _, rfl, rfl⟩
  | element => exact Or.inr ⟨_, _, rfl, rfl⟩

theorem Varies.get?_eq (h : Varies a b (name :: place) (.obj ms) (.obj ns)) {key : String}
    (hne : name ≠ key) : ns.get? key = ms.get? key :=
  (h.child?.2 key hne).symm

theorem Varies.text?_eq (h : Varies a b (name :: place) (.obj ms) (.obj ns)) (hplace : place ≠ [])
    (key : String) : ns.text? key = ms.text? key := by
  unfold Members.text?
  by_cases hname : name = key
  · subst hname
    obtain ⟨⟨x, y, hx, hy, hxy⟩, -⟩ := h.child?
    have hms : ms.get? name = some x := hx
    have hns : ns.get? name = some y := hy
    obtain ⟨hnone, hnone'⟩ := hxy.asString?_eq_none hplace
    rw [hms, hns, Option.bind_some, Option.bind_some, hnone, hnone']
  · rw [h.get?_eq hname]

/-! ### Labels -/

theorem Varies.discriminantTitle?_eq (h : Varies a b place v w)
    (hplace : ∀ key, ¬ place <+: [key]) : discriminantTitle? w = discriminantTitle? v := by
  cases place with
  | nil => exact absurd List.nil_prefix (hplace "")
  | cons name rest =>
    have hrest : rest ≠ [] := by
      rintro rfl
      exact hplace name List.prefix_rfl
    rcases h.obj_or_arr with ⟨ms, ns, rfl, rfl⟩ | ⟨xs, ys, rfl, rfl⟩
    · have htitle := h.text?_eq hrest "title"
      unfold Members.text? at htitle
      simp only [discriminantTitle?, h.has_eq, htitle]
    · rfl

theorem Varies.branchTitles_eq (h : Varies a b place v w)
    (hplace : ∀ property key, ¬ place <+: ["properties", property, key]) :
    branchTitles w = branchTitles v := by
  cases place with
  | nil => exact absurd List.nil_prefix (hplace "" "")
  | cons name rest =>
    rcases h.obj_or_arr with ⟨ms, ns, rfl, rfl⟩ | ⟨xs, ys, rfl, rfl⟩
    · by_cases hname : name = "properties"
      · subst hname
        obtain ⟨⟨x, y, hx, hy, hxy⟩, -⟩ := h.child?
        have hms : (Json.obj ms).get? "properties" = some x := hx
        have hns : (Json.obj ns).get? "properties" = some y := hy
        rw [branchTitles, branchTitles, hms, hns, Option.bind_some, Option.bind_some]
        cases hxy with
        | here => exact absurd (by simp) (hplace "" "")
        | @member pre post property rest p q hpre hpq =>
          have htitle : discriminantTitle? q = discriminantTitle? p := by
            apply hpq.discriminantTitle?_eq
            intro key
            simpa using hplace property key
          simp only [asMembers?, List.filterMap_append, List.filterMap_cons, htitle]
        | element => rfl
      · have hget : (Json.obj ns).get? "properties" = (Json.obj ms).get? "properties" :=
          h.get?_eq hname
        rw [branchTitles, branchTitles, hget]
    · rfl

theorem Varies.discriminantTitles_eq (h : Varies a b (name :: place) (.obj ms) (.obj ns))
    (hne : place ≠ []) (hplace : (∃ xs, ms.get? "oneOf" = some (.arr xs)) →
      ∀ property key, ¬ name :: place <+: ["oneOf", "0", "properties", property, key]) :
    discriminantTitles ns = discriminantTitles ms := by
  rw [Relayout.discriminantTitles_eq, Relayout.discriminantTitles_eq]
  by_cases hname : name = "oneOf"
  · subst hname
    obtain ⟨⟨x, y, hx, hy, hxy⟩, -⟩ := h.child?
    have hms : ms.get? "oneOf" = some x := hx
    have hns : ns.get? "oneOf" = some y := hy
    rw [hms, hns, Option.bind_some, Option.bind_some]
    cases hxy with
    | here => exact absurd rfl hne
    | member => rfl
    | @element pre post rest p q hpq =>
      cases pre with
      | nil =>
        -- only the first alternative is looked at
        have htitles : branchTitles q = branchTitles p := by
          apply hpq.branchTitles_eq
          intro property key hprefix
          apply hplace ⟨_, hms⟩ property key
          have hzero : toString ([] : List Json).length = "0" := by decide
          rw [hzero]
          simpa using hprefix
        exact htitles
      | cons u pre => rfl
  · rw [h.get?_eq hname]

/-- What is done about the label of an element does not depend on what lies below the members of
    its discriminants. -/
theorem Varies.labelling_eq (h : Varies a b (name :: place) (.obj ms) (.obj ns))
    (hne : place ≠ []) (hplace : (∃ xs, ms.get? "oneOf" = some (.arr xs)) →
      ∀ property key, ¬ name :: place <+: ["oneOf", "0", "properties", property, key]) :
    labelling ns = labelling ms := by
  rw [labelling, labelling, h.has_eq, h.discriminantTitles_eq hne hplace]

/-! ### One step down -/

theorem Varies.append (h : Varies a b (name :: place) (.obj ms) (.obj ns)) (added : Members) :
    Varies a b (name :: place) (.obj (ms ++ added)) (.obj (ns ++ added)) := by
  cases h with
  | member hpre hxy =>
    rw [List.append_assoc, List.append_assoc, List.cons_append, List.cons_append]
    exact .member hpre hxy

theorem Varies.withLabel (h : Varies a b (name :: place) (.obj ms) (.obj ns)) (hne : place ≠ [])
    (hplace : (∃ xs, ms.get? "oneOf" = some (.arr xs)) →
      ∀ property key, ¬ name :: place <+: ["oneOf", "0", "properties", property, key]) :
    Varies a b (name :: place) (obj ms).withLabel (obj ns).withLabel := by
  rw [Json.withLabel, Json.withLabel, attachLabel_eq, attachLabel_eq, h.labelling_eq hne hplace]
  exact h.append _

theorem Varies.mapElements {xs ys : List Json} (h : Varies a b (name :: place) (.arr xs) (.arr ys))
    (f : Json → Json) (hchild : ∀ x y, (arr xs).child? name = some x →
      (arr ys).child? name = some y → Varies a b place x y → Varies a b place (f x) (f y)) :
    Varies a b (name :: place) (.arr (xs.map f)) (.arr (ys.map f)) := by
  cases h with
  | @element pre post _ x y hxy =>
    have hmapped := hchild x y (child?_element _ _ _) (child?_element _ _ _) hxy
    rw [List.map_append, List.map_append, List.map_cons, List.map_cons]
    have hresult : Varies a b (toString (pre.map f).length :: place)
        (.arr (pre.map f ++ f x :: post.map f)) (.arr (pre.map f ++ f y :: post.map f)) :=
      .element hmapped
    rwa [List.length_map] at hresult

variable {d : Dialect}

theorem Varies.migrateEntries (h : Varies a b (name :: place) (.obj ms) (.obj ns))
    (hchild : ∀ x y, ms.get? name = some x → ns.get? name = some y → Varies a b place x y →
      Varies a b place (d.migrate .schema x) (d.migrate .schema y)) :
    Varies a b (name :: place) (.obj (d.migrateEntries ms)) (.obj (d.migrateEntries ns)) := by
  cases h with
  | @member pre post _ _ x y hpre hxy =>
    have hmapped : Varies a b place (d.migrate .schema x) (d.migrate .schema y) := by
      apply hchild x y _ _ hxy <;> simp [Members.get?_append_cons hpre]
    have hpre' : name ∉ (d.migrateEntries pre).keys := by rwa [d.keys_migrateEntries]
    simp only [Dialect.migrateEntries_eq_map, List.map_append, List.map_cons] at hpre' ⊢
    exact .member hpre' hmapped

theorem Varies.layoutMember_eq (h : Varies a b (name :: place) (.obj ms) (.obj ns))
    (hclaimed : d.table.recognizes name = false) (hne : place ≠ [])
    (htype : name = "type" → ∀ index, place ≠ [index]) :
    d.layoutMember ns = d.layoutMember ms := by
  have hread := h.readsAlike hclaimed hne htype
  rw [Dialect.layoutMember, Dialect.layoutMember, Table.layout?, Table.layout?, hread.map_eq]

theorem Varies.migrateSchema (h : Varies a b (name :: place) (.obj ms) (.obj ns))
    (hclaimed : d.table.recognizes name = false) (hne : place ≠ [])
    (htype : name = "type" → ∀ index, place ≠ [index])
    (hchild : ∀ x y, ms.get? name = some x → ns.get? name = some y → Varies a b place x y →
      Varies a b place (d.migrate (Role.ofKeyword name) x) (d.migrate (Role.ofKeyword name) y)) :
    Varies a b (name :: place) (.obj (d.migrateMembers ms ++ d.layoutMember ms))
      (.obj (d.migrateMembers ns ++ d.layoutMember ns)) := by
  rw [h.layoutMember_eq hclaimed hne htype]
  apply Varies.append
  cases h with
  | @member pre post _ _ x y hpre hxy =>
    have hmapped : Varies a b place (d.migrate (Role.ofKeyword name) x)
        (d.migrate (Role.ofKeyword name) y) := by
      apply hchild x y _ _ hxy <;> simp [Members.get?_append_cons hpre]
    have hpre' : name ∉ (d.migrateMembers pre).keys := by
      rw [d.keys_migrateMembers]
      exact fun hmem => hpre (List.mem_filter.1 hmem).1
    simp only [Dialect.migrateMembers_eq_map, Table.unclaimed, List.filter_append,
      List.filter_cons, hclaimed, Bool.not_false, if_true, List.map_append,
      List.map_cons] at hpre' ⊢
    exact .member hpre' hmapped

theorem Varies.migrateElements {xs ys : List Json}
    (h : Varies a b (name :: place) (.arr xs) (.arr ys))
    (hchild : ∀ x y, (arr xs).child? name = some x → (arr ys).child? name = some y →
      Varies a b place x y → Varies a b place (d.migrate .schema x) (d.migrate .schema y)) :
    Varies a b (name :: place) (.arr (d.migrateElements xs)) (.arr (d.migrateElements ys)) := by
  rw [d.migrateElements_eq_map, d.migrateElements_eq_map]
  exact h.mapElements _ hchild

/-- The first alternative of a choice is that of the choice before its migration. -/
theorem exists_oneOf_of_migrate {ms : Members} {xs : List Json}
    (h : Members.get? (d.migrateMembers ms ++ d.layoutMember ms) "oneOf" = some (.arr xs)) :
    ∃ ys, ms.get? "oneOf" = some (.arr ys) := by
  have hyields : d.Yields (.obj ms) (.obj (d.migrateMembers ms ++ d.layoutMember ms)) :=
    d.yields_treat (.inRole .schema) (.obj ms)
  rcases hyields.keyword_cases "oneOf" (by decide) (by decide) with ⟨-, hnone⟩ | ⟨x, y, hx, hy, hxy⟩
  · rw [hnone] at h
    cases h
  · obtain rfl : y = .arr xs := Option.some.inj (hy.symm.trans h)
    cases hxy with
    | arr => exact ⟨_, hx⟩

/-- What is made of two values that vary varies where what is made of their children does. -/
theorem Varies.treat_of_child {t : Treatment} (h : Varies a b (name :: place) v w)
    (hplace : place ≠ []) (htype : name = "type" → ∀ index, place ≠ [index])
    (hclaimed : t.visits = true → (∃ ms, v = .obj ms) → d.table.recognizes name = false)
    (hlabel : t = .labelled → (∃ ms xs, v = .obj ms ∧ Members.get? ms "oneOf" = some (.arr xs)) →
      ∀ property key, ¬ name :: place <+: ["oneOf", "0", "properties", property, key])
    (hchild : ∀ x y, v.child? name = some x → w.child? name = some y → Varies a b place x y →
      Varies a b place (d.treat (t.child v name) x) (d.treat (t.child v name) y)) :
    Varies a b (name :: place) (d.treat t v) (d.treat t w) := by
  rcases h.obj_or_arr with ⟨ms, ns, rfl, rfl⟩ | ⟨xs, ys, rfl, rfl⟩
  · cases ht : t.visits with
    | true =>
      rw [Treatment.child_of_visits ht] at hchild
      have hschema := h.migrateSchema (hclaimed ht ⟨ms, rfl⟩) hplace htype hchild
      rcases Treatment.of_visits_eq_true ht with rfl | rfl | rfl
      · exact hschema
      · exact hschema
      · apply hschema.withLabel hplace
        rintro ⟨xs, hxs⟩
        obtain ⟨ys, hys⟩ := exists_oneOf_of_migrate hxs
        exact hlabel rfl ⟨ms, ys, rfl, hys⟩
    | false =>
      rcases Treatment.of_visits_eq_false ht with rfl | rfl | rfl | rfl
      · exact h.migrateEntries hchild
      · exact h
      · exact h
      · simpa [Dialect.treat] using h
  · cases t with
    | inRole role =>
      cases role with
      | schema | schemaMap | verbatim => simpa [Dialect.treat, Dialect.migrate] using h
      | schemaList | schemaOrList => exact h.migrateElements hchild
      | labelledList =>
        have hlabelled := h.mapElements (d.treat .labelled) hchild
        simp only [Dialect.treat, Dialect.migrate, d.migrateElements_eq_map, List.map_map]
        exact hlabelled
    | labelled => simpa [Dialect.treat, Dialect.migrate, Json.withLabel] using h

/-! ### All the way down -/

theorem below_cons_of_child? {t : Treatment} {x : Json} (hx : v.child? name = some x)
    (place : Place) : t.below v (name :: place) = (t.child v name).below x place := by
  rw [Treatment.below, hx]

/-- What has a member is an object unless the key is an index. -/
theorem exists_obj_of_child? {x : Json} (hname : Pointer.index? name = none)
    (hx : v.child? name = some x) : ∃ ms, v = .obj ms := by
  cases v with
  | obj ms => exact ⟨ms, rfl⟩
  | arr => simp [Json.child?, hname] at hx
  | null | bool | num | str => cases hx

section Definitions

variable {word key : String} (hword : word = "definitions" ∨ word = "$defs")
include hword

theorem index?_definitions : Pointer.index? word = none := by
  rcases hword with rfl | rfl <;> decide

omit hword in
theorem append_pair_ne_singleton (above : Place) {index : String} :
    above ++ [word, key] ≠ [index] := by
  intro h
  have hlength := congrArg List.length h
  simp at hlength

theorem eq_of_prefix_branchProperty {above : Place} {property other : String}
    (h : name :: (above ++ [word, key]) <+: ["oneOf", "0", "properties", property, other]) :
    name = "oneOf" ∧ above = ["0", "properties"] ∧ property = word := by
  obtain ⟨rest, hrest⟩ := h
  match above with
  | [] => rcases hword with rfl | rfl <;> simp at hrest
  | [_] => rcases hword with rfl | rfl <;> simp at hrest
  | [_, _] => simp_all
  | _ :: _ :: _ :: _ =>
    have hlength := congrArg List.length hrest
    simp only [List.length_append, List.length_cons, List.length_nil] at hlength
    omega

/-- A map of definitions is copied unless it is a schema itself. -/
theorem child_definitions_eq_verbatim {t : Treatment} {x : Json} (hx : v.child? word = some x)
    (hmapped : (t.child v word).visits = false) : t.child v word = .inRole .verbatim := by
  obtain ⟨ms, rfl⟩ := exists_obj_of_child? (index?_definitions hword) hx
  cases ht : t.visits with
  | true =>
    rw [Treatment.child_of_visits ht]
    rcases hword with rfl | rfl <;> rfl
  | false =>
    rcases Treatment.of_visits_eq_false ht with rfl | rfl | rfl | rfl
    · cases hmapped
    · rfl
    · rfl
    · rfl

/-- A map of definitions among the properties of an alternative is a schema. -/
theorem visits_below_branchProperty {t : Treatment} (ht : t.visits = true) {ms : Members}
    {xs : List Json} (honeOf : ms.get? "oneOf" = some (.arr xs)) {x : Json}
    (hx : (Json.obj ms).at? ["oneOf", "0", "properties", word] = some x) :
    (t.below (.obj ms) ["oneOf", "0", "properties", word]).visits = true := by
  have hchild : (Json.obj ms).child? "oneOf" = some (.arr xs) := honeOf
  rw [at?_cons, hchild, Option.bind_some, at?_cons, Option.bind_eq_some_iff] at hx
  obtain ⟨branch, hbranch, hx⟩ := hx
  rw [at?_cons, Option.bind_eq_some_iff] at hx
  obtain ⟨properties, hproperties, hx⟩ := hx
  rw [at?_singleton] at hx
  rw [below_cons_of_child? hchild, below_cons_of_child? hbranch, below_cons_of_child? hproperties,
    below_cons_of_child? hx, Treatment.child_of_visits ht]
  obtain ⟨ns, rfl⟩ := exists_obj_of_child? (by decide) hproperties
  obtain ⟨ps, rfl⟩ := exists_obj_of_child? (index?_definitions hword) hx
  rfl

/-- What varies in definitions that are not a schema is not a discriminant. -/
theorem not_prefix_branchProperty {t : Treatment} (ht : t.visits = true) {above : Place}
    {ms entries : Members} {xs : List Json} (honeOf : ms.get? "oneOf" = some (.arr xs))
    (hmap : (Json.obj ms).at? (above ++ [word]) = some (.obj entries))
    (hmapped : (t.below (.obj ms) (above ++ [word])).visits = false) (property other : String) :
    ¬ above ++ [word, key] <+: ["oneOf", "0", "properties", property, other] := by
  intro hprefix
  cases above with
  | nil =>
    obtain rfl : word = "oneOf" := (List.cons_prefix_cons.1 hprefix).1
    simp at hword
  | cons name above =>
    obtain ⟨rfl, rfl, rfl⟩ := eq_of_prefix_branchProperty hword hprefix
    have hvisits := visits_below_branchProperty hword ht honeOf hmap
    exact Bool.noConfusion (hvisits.symm.trans hmapped)

/-- No rule claims a key on the way to a place. -/
def Keeps (table : Table) (t : Treatment) (v : Json) (place : Place) : Prop :=
  ∀ before name after ms, place = before ++ name :: after → v.at? before = some (.obj ms) →
    (t.below v before).visits = true → table.recognizes name = false

omit hword in
theorem Keeps.child {table : Table} {t : Treatment} {x : Json}
    (h : Keeps table t v (name :: place)) (hx : v.child? name = some x) :
    Keeps table (t.child v name) x place := by
  intro before other after ms hplace hms hvisits
  refine h (name :: before) other after ms ?_ ?_ ?_
  · rw [hplace, List.cons_append]
  · rw [at?_cons, hx, Option.bind_some, hms]
  · rw [below_cons_of_child? hx, hvisits]

/-- **What is made of two values that vary at an entry of definitions varies there**, by the same
    two values, unless the map of definitions is a schema itself or a rule claims it. -/
theorem Varies.treat {t : Treatment} {above : Place} {entries : Members}
    (h : Varies a b (above ++ [word, key]) v w)
    (hmap : v.at? (above ++ [word]) = some (.obj entries))
    (hmapped : (t.below v (above ++ [word])).visits = false)
    (hkept : Keeps d.table t v (above ++ [word])) :
    Varies a b (above ++ [word, key]) (d.treat t v) (d.treat t w) := by
  induction above generalizing t v w with
  | nil =>
    apply h.treat_of_child (List.cons_ne_nil _ _)
    · rintro rfl
      simp at hword
    · rintro ht ⟨ms, rfl⟩
      exact hkept [] word [] ms rfl rfl ht
    · rintro rfl ⟨ms, xs, rfl, honeOf⟩ property other
      exact not_prefix_branchProperty hword (t := .labelled) rfl honeOf hmap hmapped property other
    · intro x y hx _ hxy
      rw [List.nil_append, below_cons_of_child? hx] at hmapped
      simpa [child_definitions_eq_verbatim hword hx hmapped, Dialect.treat] using hxy
  | cons name above ih =>
    apply h.treat_of_child (by simp)
    · rintro - index
      exact append_pair_ne_singleton above
    · rintro ht ⟨ms, rfl⟩
      exact hkept [] name _ ms rfl rfl ht
    · rintro rfl ⟨ms, xs, rfl, honeOf⟩ property other
      exact not_prefix_branchProperty hword (t := .labelled) rfl honeOf hmap hmapped property other
    · intro x y hx _ hxy
      rw [List.cons_append, below_cons_of_child? hx] at hmapped
      rw [List.cons_append, at?_cons, hx, Option.bind_some] at hmap
      exact ih hxy hmap hmapped (hkept.child hx)

/-- What is told about the label of an element is the same for both values. -/
theorem Varies.labelSteps_eq {above : Place} {entries : Members}
    (h : Varies a b (above ++ [word, key]) v w)
    (hmap : v.at? (above ++ [word]) = some (.obj entries))
    (hmapped : ((Treatment.inRole .schema).below v (above ++ [word])).visits = false)
    (hkept : Keeps d.table (.inRole .schema) v (above ++ [word])) (p : Pointer) :
    Dialect.labelSteps p (d.migrate .schema w) = Dialect.labelSteps p (d.migrate .schema v) := by
  have htreated := h.treat hword hmap hmapped hkept
  obtain ⟨name, rest, hplace, hrest⟩ :
      ∃ name rest, above ++ [word, key] = name :: rest ∧ rest ≠ [] := by
    cases above with
    | nil => exact ⟨word, [key], rfl, List.cons_ne_nil _ _⟩
    | cons name above => exact ⟨name, above ++ [word, key], rfl, by simp⟩
  have hcondition : ∀ ms, v = .obj ms → (∃ xs, Members.get? (d.migrateMembers ms ++
      d.layoutMember ms) "oneOf" = some (.arr xs)) → ∀ property other,
        ¬ name :: rest <+: ["oneOf", "0", "properties", property, other] := by
    rintro ms rfl ⟨xs, hxs⟩ property other
    obtain ⟨ys, hys⟩ := exists_oneOf_of_migrate hxs
    rw [← hplace]
    exact not_prefix_branchProperty hword rfl hys hmap hmapped property other
  rw [hplace] at h htreated
  rcases h.obj_or_arr with ⟨ms, ns, rfl, rfl⟩ | ⟨xs, ys, rfl, rfl⟩
  · have hlabelling := htreated.labelling_eq hrest (hcondition ms rfl)
    rw [Dialect.migrate, Dialect.migrate, Dialect.labelSteps, Dialect.labelSteps, hlabelling]
  · rfl

end Definitions

/-! ### Putting definitions back -/

/-- What is put back at a pointer in two runs. -/
def Matched (a b : Json) (gap : Place) (entry entry' : Pointer × Json) : Prop :=
  entry'.1 = entry.1 ∧ Counterparts a b gap entry.1.place entry.2 entry'.2

section Arenas

variable {gap : Place} {arena arena' : List (Pointer × Json)}

theorem forall₂_insertByDepth {entry entry' : Pointer × Json}
    (hentry : Matched a b gap entry entry') (h : List.Forall₂ (Matched a b gap) arena arena') :
    List.Forall₂ (Matched a b gap) (insertByDepth entry arena) (insertByDepth entry' arena') := by
  induction h with
  | nil => exact .cons hentry .nil
  | cons hhead htail ih =>
    rw [insertByDepth, insertByDepth, hentry.1, hhead.1]
    split
    · exact .cons hentry (.cons hhead htail)
    · exact .cons hhead ih

theorem forall₂_byDepth (h : List.Forall₂ (Matched a b gap) arena arena') :
    List.Forall₂ (Matched a b gap) (byDepth arena) (byDepth arena') := by
  induction h with
  | nil => exact .nil
  | cons hhead _ ih => exact forall₂_insertByDepth hhead ih

/-- Counterparts that are put back leave the place as it was. -/
theorem Varies.splice (h : Varies a b gap v w)
    (harena : List.Forall₂ (Matched a b gap) arena arena') :
    Varies a b gap (Relayout.splice arena v).2 (Relayout.splice arena' w).2 := by
  induction harena generalizing v w with
  | nil => exact h
  | @cons entry entry' _ _ hhead _ ih =>
    obtain ⟨p, x⟩ := entry
    obtain ⟨p', y⟩ := entry'
    obtain ⟨rfl, hcounterparts⟩ : p' = p ∧ Counterparts a b gap p.place x y := hhead
    rw [Relayout.splice, Relayout.splice]
    rcases h.replace?_cases hcounterparts with ⟨hv, hw⟩ | ⟨v', w', hv, hw, hvaries⟩
    · rw [hv, hw]
      exact ih h
    · rw [hv, hw]
      exact ih hvaries

end Arenas

theorem Varies.stamped (h : Varies a b (name :: place) v w) (id : String) :
    Varies a b (name :: place) (v.stamped id) (w.stamped id) := by
  rcases h.obj_or_arr with ⟨ms, ns, rfl, rfl⟩ | ⟨xs, ys, rfl, rfl⟩
  · rw [Json.stamped, Json.stamped, stampRootId, stampRootId, h.has_eq]
    split
    · exact h
    · exact h.append _
  · exact h

end Json

end Relayout
