/-
  Relayout/Proofs/Migration/Splice.lean
  =====================================
  **What migrated definitions put back in place leave to be seen.**

  Definitions are put back shallow places first.  So a place shows what the deepest of
  those at or above it brought (`shapeAt_splice_of_mem`), and what was there before if none
  is (`shapeAt_splice_of_untouched`).  It does not matter which pointers spell the places,
  nor in which order definitions of one depth come.
-/
import Relayout.Migration.Walk
import Relayout.Proofs.Json.Place

namespace Relayout

theorem Pointer.length_place (p : Pointer) : p.place.length = p.depth := by
  simp [Pointer.place, Pointer.depth]

/-! ### Order -/

theorem perm_insertByDepth (entry : Pointer × Json) (entries : List (Pointer × Json)) :
    (insertByDepth entry entries).Perm (entry :: entries) := by
  induction entries with
  | nil => exact .refl _
  | cons e rest ih =>
    unfold insertByDepth
    split
    · exact .refl _
    · exact (ih.cons e).trans (.swap entry e rest)

theorem mem_insertByDepth {new entry : Pointer × Json} {entries : List (Pointer × Json)} :
    entry ∈ insertByDepth new entries ↔ entry = new ∨ entry ∈ entries := by
  rw [(perm_insertByDepth new entries).mem_iff, List.mem_cons]

theorem perm_byDepth (arena : List (Pointer × Json)) : (byDepth arena).Perm arena := by
  induction arena with
  | nil => exact .refl _
  | cons e rest ih => exact (perm_insertByDepth e (byDepth rest)).trans (ih.cons e)

theorem mem_byDepth {arena : List (Pointer × Json)} {entry : Pointer × Json} :
    entry ∈ byDepth arena ↔ entry ∈ arena :=
  (perm_byDepth arena).mem_iff

theorem pairwise_insertByDepth {entry : Pointer × Json} {entries : List (Pointer × Json)}
    (h : entries.Pairwise (fun a b => a.1.depth ≤ b.1.depth)) :
    (insertByDepth entry entries).Pairwise (fun a b => a.1.depth ≤ b.1.depth) := by
  induction entries with
  | nil => exact List.pairwise_singleton _ _
  | cons e rest ih =>
    have hcons := List.pairwise_cons.1 h
    unfold insertByDepth
    split
    · rename_i hle
      refine List.pairwise_cons.2 ⟨fun b hb => ?_, h⟩
      rcases List.mem_cons.1 hb with rfl | hb
      · exact hle
      · exact Nat.le_trans hle (hcons.1 b hb)
    · rename_i hlt
      refine List.pairwise_cons.2 ⟨fun b hb => ?_, ih hcons.2⟩
      rcases mem_insertByDepth.1 hb with rfl | hb
      · omega
      · exact hcons.1 b hb

theorem pairwise_byDepth (arena : List (Pointer × Json)) :
    (byDepth arena).Pairwise (fun a b => a.1.depth ≤ b.1.depth) := by
  induction arena with
  | nil => exact List.Pairwise.nil
  | cons e rest ih => exact pairwise_insertByDepth ih

/-! ### Splicing -/

/-- A place that no definition is put at or above shows what it did. -/
theorem shapeAt_splice_of_untouched (arena : List (Pointer × Json)) (document : Json)
    {place : Place} (h : ∀ entry ∈ arena, ¬ entry.1.place <+: place) :
    (splice arena document).2.shapeAt place = document.shapeAt place := by
  induction arena generalizing document with
  | nil => rfl
  | cons entry rest ih =>
    obtain ⟨p, w⟩ := entry
    have hrest := fun e he => h e (List.mem_cons_of_mem (p, w) he)
    unfold splice
    cases hreplace : document.replace? p w with
    | none => exact ih document hrest
    | some document' =>
      calc
        (splice rest document').2.shapeAt place = document'.shapeAt place := ih document' hrest
        _ = document.shapeAt place :=
          Json.shapeAt_replace? hreplace (h (p, w) List.mem_cons_self)

/-- If a definition is the deepest at or above a place below it, others that are as deep at least
    and have other places are not at or above anything on the way there. -/
theorem not_prefix_of_deepest {rest : List (Pointer × Json)} {p : Pointer} {below : Place}
    (hdepth : ∀ entry ∈ rest, p.depth ≤ entry.1.depth)
    (hother : ∀ entry ∈ rest, entry.1.place ≠ p.place)
    (hdeepest : ∀ entry ∈ rest, p.place <+: entry.1.place →
      entry.1.place <+: p.place ++ below → entry.1.place = p.place)
    {tail : Place} (htail : tail <+: below) :
    ∀ entry ∈ rest, ¬ entry.1.place <+: p.place ++ tail := by
  intro entry hentry hprefix
  have hle : p.place.length ≤ entry.1.place.length := by
    rw [Pointer.length_place, Pointer.length_place]
    exact hdepth entry hentry
  have hbelow : p.place <+: entry.1.place :=
    List.prefix_of_prefix_length_le (List.prefix_append p.place tail) hprefix hle
  have hupto : entry.1.place <+: p.place ++ below :=
    hprefix.trans ((List.prefix_append_right_inj p.place).2 htail)
  exact hother entry hentry (hdeepest entry hentry hbelow hupto)

/-- Among definitions sorted by depth, the deepest at or above a place is seen there. -/
theorem shapeAt_splice_of_mem {arena : List (Pointer × Json)} (document : Json)
    (hsorted : arena.Pairwise (fun a b => a.1.depth ≤ b.1.depth))
    (hsame : ∀ a ∈ arena, ∀ b ∈ arena, a.1.place = b.1.place → a.2 = b.2)
    {p : Pointer} {w : Json} (hmem : (p, w) ∈ arena)
    (hslot : (splice arena document).2.at? p.place ≠ none) {below : Place}
    (hdeepest : ∀ entry ∈ arena, p.place <+: entry.1.place →
      entry.1.place <+: p.place ++ below → entry.1.place = p.place) :
    (splice arena document).2.shapeAt (p.place ++ below) = w.shapeAt below := by
  induction arena generalizing document p w with
  | nil => cases hmem
  | cons entry rest ih =>
    obtain ⟨q, u⟩ := entry
    rw [List.pairwise_cons] at hsorted
    have hsame' := fun a ha b hb =>
      hsame a (List.mem_cons_of_mem (q, u) ha) b (List.mem_cons_of_mem (q, u) hb)
    have hdeepest' := fun e he => hdeepest e (List.mem_cons_of_mem (q, u) he)
    unfold splice at hslot ⊢
    by_cases hagain : ∃ e ∈ rest, e.1.place = p.place
    · -- one of the others brings the same value to this place
      obtain ⟨⟨p', w'⟩, he, hplace⟩ := hagain
      have hw : w' = w := hsame (p', w') (List.mem_cons_of_mem _ he) (p, w) hmem hplace
      subst hw
      simp only at hplace
      rw [← hplace] at hslot hdeepest' ⊢
      cases hreplace : document.replace? q u with
      | none =>
        rw [hreplace] at hslot
        exact ih document hsorted.2 hsame' he hslot hdeepest'
      | some document' =>
        rw [hreplace] at hslot
        exact ih document' hsorted.2 hsame' he hslot hdeepest'
    · -- the others are as deep at least, so none of them is at or above this place
      have hentry : (p, w) = (q, u) := by
        rcases List.mem_cons.1 hmem with heq | hrest
        · exact heq
        · exact absurd ⟨(p, w), hrest, rfl⟩ hagain
      cases hentry
      have huntouched {tail : Place} (htail : tail <+: below) :=
        not_prefix_of_deepest hsorted.1 (fun e he hplace => hagain ⟨e, he, hplace⟩) hdeepest' htail
      cases hreplace : document.replace? p w with
      | none =>
        rw [hreplace] at hslot
        have hnone := (Json.replace?_eq_none_iff document p w).1 hreplace
        have hkept := shapeAt_splice_of_untouched rest document (huntouched List.nil_prefix)
        rw [List.append_nil] at hkept
        rw [← Json.shapeAt_eq_none_iff, ← hkept, Json.shapeAt_eq_none_iff] at hnone
        exact absurd hnone hslot
      | some document' =>
        simp only
        rw [shapeAt_splice_of_untouched rest document' (huntouched List.prefix_rfl)]
        simp only [Json.shapeAt, Json.at?_replace? hreplace]

/-! ### Definitions that are left out -/

/-- A place that is missing stays missing while definitions that are as deep at least are put
    back. -/
theorem at?_splice_eq_none {arena : List (Pointer × Json)} {document : Json} {p : Pointer}
    (hdepth : ∀ entry ∈ arena, p.depth ≤ entry.1.depth) (h : document.at? p.place = none) :
    (splice arena document).2.at? p.place = none := by
  induction arena generalizing document with
  | nil => exact h
  | cons entry rest ih =>
    obtain ⟨q, w⟩ := entry
    obtain ⟨hq, hrest⟩ := List.forall_mem_cons.1 hdepth
    unfold splice
    cases hreplace : document.replace? q w with
    | none => exact ih hrest h
    | some document' =>
      refine ih hrest ?_
      have hnot : ¬ q.place <+: p.place := by
        intro hprefix
        have hle : p.place.length ≤ q.place.length := by
          rw [Pointer.length_place, Pointer.length_place]
          exact hq
        rw [← hprefix.eq_of_length_le hle, ← Json.replace?_eq_none_iff document q w, hreplace] at h
        cases h
      rw [← Json.shapeAt_eq_none_iff, Json.shapeAt_replace? hreplace hnot,
        Json.shapeAt_eq_none_iff]
      exact h

/-- Splicing logs nothing but definitions whose place is missing in the end. -/
theorem exists_missing_of_splice {arena : List (Pointer × Json)} {document : Json}
    (hsorted : arena.Pairwise (fun a b => a.1.depth ≤ b.1.depth)) {event : Event}
    (h : event ∈ (splice arena document).1) :
    ∃ entry ∈ arena, event = .definitionWithoutSlot entry.1.text ∧
      (splice arena document).2.at? entry.1.place = none := by
  induction arena generalizing document with
  | nil => cases h
  | cons entry rest ih =>
    obtain ⟨q, w⟩ := entry
    obtain ⟨hq, hrest⟩ := List.pairwise_cons.1 hsorted
    unfold splice at h ⊢
    cases hreplace : document.replace? q w with
    | some document' =>
      rw [hreplace] at h
      obtain ⟨found, hfound, hevent, hnone⟩ := ih hrest h
      exact ⟨found, List.mem_cons_of_mem _ hfound, hevent, hnone⟩
    | none =>
      rw [hreplace] at h
      rcases List.mem_cons.1 h with rfl | hlater
      · have hmissing := (Json.replace?_eq_none_iff document q w).1 hreplace
        exact ⟨(q, w), List.mem_cons_self, rfl, at?_splice_eq_none hq hmissing⟩
      · obtain ⟨found, hfound, hevent, hnone⟩ := ih hrest hlater
        exact ⟨found, List.mem_cons_of_mem _ hfound, hevent, hnone⟩

end Relayout
