/-
  Relayout/Proofs/Migration/Definitions.lean
  ==========================================
  **Which places lie in definitions.**

  Whether a pointer leads into definitions is asked of its segments as they are written.
  The answer depends on the place alone: no keyword holds a character that is escaped, so
  a segment that stands for a keyword is that keyword (`isLazy_eq_throughDefinitions`).  And
  what lies in definitions stays there further down (`throughDefinitions_append`).
-/
import Relayout.Proofs.Json.Place
import Relayout.Migration.Role

namespace Relayout

namespace Pointer

/-! ### Segments that stand for a name without escapes -/

theorem unescapeTildes_eq {cs name : List Char} (hname : '~' ∉ name)
    (h : unescapeTildes cs = name) : cs = name := by
  induction cs using unescapeTildes.induct generalizing name with
  | case1 cs ih =>
    rw [unescapeTildes] at h
    subst h
    exact absurd List.mem_cons_self hname
  | case2 c cs hc ih =>
    rw [unescapeTildes] at h
    · subst h
      rw [List.mem_cons, not_or] at hname
      rw [← ih hname.2 rfl]
    · exact hc
  | case3 => exact h

theorem unescapeSlashes_eq {cs name : List Char} (hname : '/' ∉ name)
    (h : unescapeSlashes cs = name) : cs = name := by
  induction cs using unescapeSlashes.induct generalizing name with
  | case1 cs ih =>
    rw [unescapeSlashes] at h
    subst h
    exact absurd List.mem_cons_self hname
  | case2 c cs hc ih =>
    rw [unescapeSlashes] at h
    · subst h
      rw [List.mem_cons, not_or] at hname
      rw [← ih hname.2 rfl]
    · exact hc
  | case3 => exact h

theorem unescapeTildes_of_not_mem {cs : List Char} (h : '~' ∉ cs) : unescapeTildes cs = cs := by
  induction cs using unescapeTildes.induct with
  | case1 cs ih => exact absurd List.mem_cons_self h
  | case2 c cs hc ih =>
    rw [List.mem_cons, not_or] at h
    rw [unescapeTildes, ih h.2]
    exact hc
  | case3 => rfl

theorem unescapeSlashes_of_not_mem {cs : List Char} (h : '~' ∉ cs) : unescapeSlashes cs = cs := by
  induction cs using unescapeSlashes.induct with
  | case1 cs ih => exact absurd List.mem_cons_self h
  | case2 c cs hc ih =>
    rw [List.mem_cons, not_or] at h
    rw [unescapeSlashes, ih h.2]
    exact hc
  | case3 => rfl

/-- A name that needs no escape has one spelling. -/
theorem unescape_eq_iff {segment name : String} (htilde : '~' ∉ name.toList)
    (hslash : '/' ∉ name.toList) : unescape segment = name ↔ segment = name := by
  constructor
  · intro h
    have hlist : unescapeTildes (unescapeSlashes segment.toList) = name.toList := by
      rw [← h, unescape, String.toList_ofList]
    rw [← String.toList_inj]
    exact unescapeSlashes_eq hslash (unescapeTildes_eq htilde hlist)
  · rintro rfl
    rw [unescape, unescapeSlashes_of_not_mem htilde, unescapeTildes_of_not_mem htilde,
      String.ofList_toList]

end Pointer

/-! ### Definitions by place -/

/-- One segment is looked at, and after a keyword whose members are named freely the name is
    skipped. -/
theorem throughDefinitions_cons (s : String) (rest : Place) :
    throughDefinitions (s :: rest) =
      if s = "definitions" ∨ s = "$defs" then true
      else if s = "properties" ∨ s = "patternProperties" ∨ s = "dependencies" then
        throughDefinitions rest.tail
      else throughDefinitions rest := by
  cases rest <;> simp [throughDefinitions, or_assoc]

theorem throughDefinitions_map_unescape (segments : List String) :
    throughDefinitions (segments.map Pointer.unescape) = throughDefinitions segments := by
  induction h : segments.length using Nat.strongRecOn generalizing segments with
  | _ n ih =>
    cases segments with
    | nil => rfl
    | cons s rest =>
      have hrest := ih rest.length (by simp [← h]) rest rfl
      have htail := ih rest.tail.length (by rw [← h, List.length_tail, List.length_cons]; omega)
        rest.tail rfl
      have hdefinitions : Pointer.unescape s = "definitions" ↔ s = "definitions" :=
        Pointer.unescape_eq_iff (by decide) (by decide)
      have hdefs : Pointer.unescape s = "$defs" ↔ s = "$defs" :=
        Pointer.unescape_eq_iff (by decide) (by decide)
      have hproperties : Pointer.unescape s = "properties" ↔ s = "properties" :=
        Pointer.unescape_eq_iff (by decide) (by decide)
      have hpatterns : Pointer.unescape s = "patternProperties" ↔ s = "patternProperties" :=
        Pointer.unescape_eq_iff (by decide) (by decide)
      have hdependencies : Pointer.unescape s = "dependencies" ↔ s = "dependencies" :=
        Pointer.unescape_eq_iff (by decide) (by decide)
      simp only [List.map_cons, throughDefinitions_cons, ← List.map_tail, hrest, htail,
        hdefinitions, hdefs, hproperties, hpatterns, hdependencies]

/-- Whether a pointer leads into definitions is a matter of its place. -/
theorem Pointer.isLazy_eq_throughDefinitions (p : Pointer) :
    p.isLazy = throughDefinitions p.place :=
  (throughDefinitions_map_unescape p.segments).symm

/-- What lies in definitions stays there further down. -/
theorem throughDefinitions_append {place : Place} (h : throughDefinitions place = true)
    (below : Place) : throughDefinitions (place ++ below) = true := by
  induction hn : place.length using Nat.strongRecOn generalizing place with
  | _ n ih =>
    cases place with
    | nil => cases h
    | cons s rest =>
      rw [List.cons_append, throughDefinitions_cons]
      rw [throughDefinitions_cons] at h
      split
      · rfl
      · rename_i hs
        rw [if_neg hs] at h
        split
        · rename_i hnamed
          rw [if_pos hnamed] at h
          cases rest with
          | nil => cases h
          | cons name rest =>
            exact ih rest.length (by rw [← hn, List.length_cons, List.length_cons]; omega) h rfl
        · rename_i hnamed
          rw [if_neg hnamed] at h
          exact ih rest.length (by simp [← hn]) h rfl

/-- Past a place outside of definitions the question starts anew, unless the first name further
    down is skipped. -/
theorem throughDefinitions_append_of_eq_false {place : Place}
    (h : throughDefinitions place = false) (below : Place) :
    throughDefinitions (place ++ below) = throughDefinitions below ∨
      throughDefinitions (place ++ below) = throughDefinitions below.tail := by
  induction hn : place.length using Nat.strongRecOn generalizing place with
  | _ n ih =>
    cases place with
    | nil => exact Or.inl rfl
    | cons s rest =>
      rw [List.cons_append, throughDefinitions_cons]
      rw [throughDefinitions_cons] at h
      split at h
      · cases h
      · rename_i hs
        rw [if_neg hs]
        split at h
        · rename_i hnamed
          rw [if_pos hnamed]
          cases rest with
          | nil => exact Or.inr rfl
          | cons name rest =>
            exact ih rest.length (by rw [← hn, List.length_cons, List.length_cons]; omega) h rfl
        · rename_i hnamed
          rw [if_neg hnamed]
          exact ih rest.length (by simp [← hn]) h rfl

theorem throughDefinitions_above {above place : Place} (h : above <+: place)
    (hplace : throughDefinitions place = false) : throughDefinitions above = false := by
  obtain ⟨below, rfl⟩ := h
  rw [Bool.eq_false_iff] at hplace ⊢
  exact fun habove => hplace (throughDefinitions_append habove below)

theorem Json.agreeOutside_definitions_iff {v w : Json} :
    v.AgreeOutside (fun place => throughDefinitions place = true) w ↔
      ∀ place, throughDefinitions place = false → v.shapeAt place = w.shapeAt place := by
  constructor
  · intro h place hplace
    exact h place (fun above habove =>
      Bool.eq_false_iff.1 (throughDefinitions_above habove hplace))
  · intro h place hplace
    exact h place (Bool.eq_false_iff.2 (hplace place List.prefix_rfl))

end Relayout
