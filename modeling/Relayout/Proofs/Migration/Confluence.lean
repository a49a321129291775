/-
  Relayout/Proofs/Migration/Confluence.lean
  =========================================
  **The order in which definitions are found does not matter where they are put back.**

  Definitions are put back sorted by the number of slashes in their pointers, and those with equally
  many in the order in which their visits ended.  Two of them that are equally deep are at places
  apart from each other, or are two spellings of one place with the same value, so they can change
  places (`putBack_comm`).  A fold over a sorted list depends on nothing but the set of what it
  holds if ties commute (`foldl_eq_of_perm_of_sorted`), and so the schema is the same for any order
  of the definitions (`SpliceConfluent.of_ties`).
-/
import Relayout.Proofs.Json.Address
import Relayout.Proofs.Json.Variation
import Relayout.Proofs.Migration.Log
import Relayout.Proofs.Migration.Splice

namespace Relayout

/-! ### Places apart, and a place below another -/

/-- Neither of two places is at or above the other. -/
def Place.Apart (a b : Place) : Prop := ¬ a <+: b ∧ ¬ b <+: a

def Place.Below (b a : Place) : Prop := a <+: b ∧ a ≠ b

theorem Place.Apart.symm {a b : Place} (h : a.Apart b) : b.Apart a := ⟨h.2, h.1⟩

theorem Place.Apart.of_length_eq {a b : Place} (hlength : a.length = b.length) (hne : a ≠ b) :
    a.Apart b := by
  constructor
  · intro hupto
    exact hne (hupto.eq_of_length hlength)
  · intro hupto
    exact hne (hupto.eq_of_length hlength.symm).symm

theorem Place.Below.length_lt {a b : Place} (h : b.Below a) : a.length < b.length := by
  obtain ⟨hupto, hne⟩ := h
  rcases Nat.lt_or_eq_of_le hupto.length_le with hlt | heq
  · exact hlt
  · exact absurd (hupto.eq_of_length heq) hne

namespace Pointer

/-- The depth of a pointer is how many slashes its text has. -/
theorem count_slash_text {p : Pointer} (hp : p.SlashFree) : p.text.toList.count '/' = p.depth := by
  obtain ⟨segments⟩ := p
  rw [toList_text, depth]
  induction segments with
  | nil => rfl
  | cons s rest ih =>
    have hs : s.toList.count '/' = 0 := List.count_eq_zero.2 (hp s List.mem_cons_self)
    have hrest := ih (fun segment hsegment => hp segment (List.mem_cons_of_mem s hsegment))
    simp only at hrest
    simp [List.count_append, hs, hrest]

end Pointer

/-! ### Folds over sorted lists -/

section Fold

variable {α σ : Type} {f : σ → α → σ}

/-- A step can be taken before others that it commutes with. -/
theorem foldl_concat_of_comm {before : List α} {a : α}
    (hcomm : ∀ b ∈ before, ∀ s, f (f s b) a = f (f s a) b) (s : σ) :
    f (before.foldl f s) a = before.foldl f (f s a) := by
  induction before generalizing s with
  | nil => rfl
  | cons b rest ih =>
    obtain ⟨hb, hrest⟩ := List.forall_mem_cons.1 hcomm
    calc
      f (rest.foldl f (f s b)) a = rest.foldl f (f (f s b) a) := ih hrest _
      _ = rest.foldl f (f (f s a) b) := by rw [hb s]

/-- Two lists sorted by a key that hold the same are folded to the same, if steps with one key
    commute. -/
theorem foldl_eq_of_perm_of_sorted {key : α → Nat} {xs ys : List α} (hperm : xs.Perm ys)
    (hxs : xs.Pairwise (fun a b => key a ≤ key b)) (hys : ys.Pairwise (fun a b => key a ≤ key b))
    (hcomm : ∀ a ∈ xs, ∀ b ∈ xs, key a = key b → ∀ s, f (f s b) a = f (f s a) b) (s : σ) :
    xs.foldl f s = ys.foldl f s := by
  induction xs generalizing ys s with
  | nil => rw [hperm.nil_eq]
  | cons a xs ih =>
    obtain ⟨ha, hxs⟩ := List.pairwise_cons.1 hxs
    obtain ⟨before, rest, rfl⟩ := List.append_of_mem (hperm.subset List.mem_cons_self)
    have hperm' : xs.Perm (before ++ rest) :=
      List.perm_cons a |>.1 (hperm.trans List.perm_middle)
    -- what stands before this step in the other list has the same key
    have hbefore : ∀ b ∈ before, ∀ s, f (f s b) a = f (f s a) b := by
      intro b hb
      have hmem : b ∈ xs := hperm'.symm.subset (List.mem_append_left _ hb)
      have hle : key b ≤ key a := (List.pairwise_append.1 hys).2.2 b hb a List.mem_cons_self
      have heq : key a = key b := Nat.le_antisymm (ha b hmem) hle
      exact hcomm a List.mem_cons_self b (List.mem_cons_of_mem a hmem) heq
    have hys' : (before ++ rest).Pairwise (fun a b => key a ≤ key b) :=
      hys.sublist ((List.sublist_cons_self a rest).append_left before)
    have hcomm' : ∀ x ∈ xs, ∀ y ∈ xs, key x = key y → ∀ s, f (f s y) x = f (f s x) y :=
      fun x hx y hy => hcomm x (List.mem_cons_of_mem a hx) y (List.mem_cons_of_mem a hy)
    calc
      xs.foldl f (f s a) = (before ++ rest).foldl f (f s a) := ih hperm' hxs hys' hcomm' _
      _ = rest.foldl f (f (before.foldl f s) a) := by
        rw [List.foldl_append, foldl_concat_of_comm hbefore]
      _ = (before ++ a :: rest).foldl f s := by rw [List.foldl_append, List.foldl_cons]

end Fold

/-! ### One definition -/

/-- Nothing is put back where nothing is. -/
def putBack (schema : Json) (entry : Pointer × Json) : Json :=
  (schema.replace? entry.1 entry.2).getD schema

theorem splice_eq_foldl (entries : List (Pointer × Json)) (schema : Json) :
    (splice entries schema).2 = entries.foldl putBack schema := by
  induction entries generalizing schema with
  | nil => rfl
  | cons entry rest ih =>
    obtain ⟨p, w⟩ := entry
    rw [List.foldl_cons, putBack, splice]
    cases schema.replace? p w with
    | none => exact ih schema
    | some schema' => exact ih schema'

namespace Json

/-- Where a value is put depends on the place of a pointer, not on how it spells it. -/
theorem replace?_eq_of_place_eq {p q : Pointer} (h : p.place = q.place) (v new : Json) :
    v.replace? p new = v.replace? q new := by
  cases hp : v.replace? p new with
  | none =>
    rw [replace?_eq_none_iff, h] at hp
    exact ((replace?_eq_none_iff v q new).2 hp).symm
  | some w =>
    obtain ⟨a, hvaries⟩ := varies_of_replace? hp
    rw [h] at hvaries
    exact hvaries.replace?_eq.symm

/-- Values put at places apart do not see each other. -/
theorem replace?_of_apart {p q : Pointer} (hapart : p.place.Apart q.place) {v w x : Json}
    (h : v.replace? p x = some w) (y : Json) :
    (v.replace? q y = none ∧ w.replace? q y = none) ∨
      ∃ v' w', v.replace? q y = some v' ∧ w.replace? q y = some w' ∧ v'.replace? p x = some w' := by
  obtain ⟨a, hvaries⟩ := varies_of_replace? h
  rcases hvaries.replace?_cases (.aside y hapart.2 hapart.1) with hnone | ⟨v', w', hv', hw', hafter⟩
  · exact Or.inl hnone
  · exact Or.inr ⟨v', w', hv', hw', hafter.replace?_eq⟩

end Json

/-- Two definitions change places if they are apart, or bring one value to one place. -/
theorem putBack_comm {a b : Pointer × Json}
    (h : (a.1.place = b.1.place ∧ a.2 = b.2) ∨ a.1.place.Apart b.1.place) (schema : Json) :
    putBack (putBack schema a) b = putBack (putBack schema b) a := by
  obtain ⟨p, x⟩ := a
  obtain ⟨q, y⟩ := b
  rcases h with ⟨hplace, hvalue⟩ | hapart
  · simp only at hplace hvalue
    subst hvalue
    have hsame (v : Json) : putBack v (p, x) = putBack v (q, x) := by
      rw [putBack, putBack, Json.replace?_eq_of_place_eq hplace]
    rw [hsame, hsame]
  · simp only at hapart
    cases hx : schema.replace? p x with
    | some w =>
      obtain ⟨hy, hw⟩ | ⟨v', w', hy, hw, hv'⟩ := Json.replace?_of_apart hapart hx y
      · simp [putBack, hx, hy, hw]
      · simp [putBack, hx, hy, hw, hv']
    | none =>
      cases hy : schema.replace? q y with
      | none => simp [putBack, hx, hy]
      | some w =>
        obtain ⟨-, hw⟩ | ⟨v', w', hx', -⟩ := Json.replace?_of_apart hapart.symm hy x
        · simp [putBack, hx, hy, hw]
        · rw [hx] at hx'
          cases hx'

/-! ### All definitions of a walk -/

/-- What is kept for references can be put back into a schema in any order. -/
structure SpliceConfluent (arena : List (Pointer × Json)) (schema : Json) : Prop where
  /-- Sorting by depth is sorting by the number of slashes. -/
  slashes : ∀ entry ∈ arena, entry.1.depth = entry.1.text.toList.count '/'
  /-- Of entries that are equally deep, two are at one place with one value, or apart. -/
  ties : ∀ a ∈ arena, ∀ b ∈ arena, a.1.depth = b.1.depth →
    (a.1.place = b.1.place ∧ a.2 = b.2) ∨ a.1.place.Apart b.1.place
  /-- An entry is put back before all that are strictly below it. -/
  aboveFirst : ∀ order, order.Perm arena → ∀ (i j : Nat) (a b : Pointer × Json),
    (byDepth order)[i]? = some a →
      (byDepth order)[j]? = some b → b.1.place.Below a.1.place → i < j
  /-- The schema is the same in whatever order the entries come, -/
  anyOrder : ∀ order, order.Perm arena →
    (splice (byDepth order) schema).2 = (splice (byDepth arena) schema).2
  /-- and however those that are equally deep are arranged. -/
  anyTies : ∀ sorted, sorted.Perm arena → sorted.Pairwise (fun a b => a.1.depth ≤ b.1.depth) →
    (splice sorted schema).2 = (splice (byDepth arena) schema).2

theorem lt_of_below {sorted : List (Pointer × Json)}
    (hsorted : sorted.Pairwise (fun a b => a.1.depth ≤ b.1.depth)) {i j : Nat}
    {a b : Pointer × Json} (ha : sorted[i]? = some a) (hb : sorted[j]? = some b)
    (hbelow : b.1.place.Below a.1.place) : i < j := by
  have hlt : a.1.depth < b.1.depth := by
    rw [← Pointer.length_place, ← Pointer.length_place]
    exact hbelow.length_lt
  obtain ⟨hi, rfl⟩ := List.getElem?_eq_some_iff.1 ha
  obtain ⟨hj, rfl⟩ := List.getElem?_eq_some_iff.1 hb
  rcases Nat.lt_trichotomy i j with hij | rfl | hji
  · exact hij
  · exact absurd hlt (Nat.lt_irrefl _)
  · have hle := List.pairwise_iff_getElem.1 hsorted j i hj hi hji
    omega

theorem SpliceConfluent.of_ties {arena : List (Pointer × Json)}
    (hslashes : ∀ entry ∈ arena, entry.1.depth = entry.1.text.toList.count '/')
    (hties : ∀ a ∈ arena, ∀ b ∈ arena, a.1.depth = b.1.depth →
      (a.1.place = b.1.place ∧ a.2 = b.2) ∨ a.1.place.Apart b.1.place) (schema : Json) :
    SpliceConfluent arena schema := by
  have hany : ∀ sorted, sorted.Perm arena →
      sorted.Pairwise (fun a b => a.1.depth ≤ b.1.depth) →
        (splice sorted schema).2 = (splice (byDepth arena) schema).2 := by
    intro sorted hperm hsorted
    rw [splice_eq_foldl, splice_eq_foldl]
    apply foldl_eq_of_perm_of_sorted (hperm.trans (perm_byDepth arena).symm) hsorted
      (pairwise_byDepth arena)
    intro a ha b hb hdepth v
    exact putBack_comm (hties b (hperm.subset hb) a (hperm.subset ha) hdepth.symm) v
  constructor
  · exact hslashes
  · exact hties
  · intro order _ i j a b ha hb hbelow
    exact lt_of_below (pairwise_byDepth order) ha hb hbelow
  · intro order hperm
    exact hany (byDepth order) ((perm_byDepth order).trans hperm) (pairwise_byDepth order)
  · exact hany

namespace Dialect

variable {d : Dialect} {document : Json} {s : Progress}

theorem KeptFor.slashFree {ref : String} {entry : Pointer × Json}
    (h : d.KeptFor document ref entry) : entry.1.SlashFree := by
  obtain ⟨hpointer, -⟩ := h
  obtain ⟨fragment, -, hread⟩ := Option.bind_eq_some_iff.1 hpointer
  exact Pointer.slashFree_of_ofText? hread

/-- **Putting the definitions back is confluent**: of what is kept when the references of a document
    have been followed, any order is sorted and put back to the schema that the walk gives. -/
theorem walk_spliceConfluent (h : (d.follow document).result = .ok s) :
    (d.walk document).result
        = .ok ⟨(splice (byDepth s.arena) (d.migrate .schema document)).2, s.reached⟩ ∧
      SpliceConfluent s.arena (d.migrate .schema document) := by
  have hkept := (keptForAll_of_follow h).2
  constructor
  · rw [walk_eq, Trace.bind_result_eq_ok_iff]
    exact ⟨s, h, rfl⟩
  · apply SpliceConfluent.of_ties
    · intro entry hentry
      obtain ⟨ref, -, hfor⟩ := hkept entry hentry
      exact (Pointer.count_slash_text hfor.slashFree).symm
    · intro a ha b hb hdepth
      obtain ⟨ref, -, hfor⟩ := hkept a ha
      obtain ⟨ref', -, hfor'⟩ := hkept b hb
      by_cases hplace : a.1.place = b.1.place
      · exact Or.inl ⟨hplace, hfor.value_eq hfor' hplace⟩
      · refine Or.inr (.of_length_eq ?_ hplace)
        rw [Pointer.length_place, Pointer.length_place, hdepth]

/-- A definition with another inside, the outer one spelled in two ways. -/
def overlappingDocument : Json :=
  .obj [("properties", .obj [
      ("x", .obj [("$ref", .str "#/definitions/my%20def/definitions/in")]),
      ("y", .obj [("$ref", .str "#/definitions/my def")]),
      ("z", .obj [("$ref", .str "#/definitions/my%20def")])]),
    ("definitions", .obj [("my def", .obj [("x-display", .str "card"),
      ("definitions", .obj [("in", .obj [("x-display", .str "text")])])])])]

/-- How far its references are followed: the inner definition is kept first. -/
def overlappingProgress : Progress where
  unseen := []
  reached := ["#/definitions/my%20def/definitions/in", "#/definitions/my def",
    "#/definitions/my%20def"]
  arena := [(⟨["definitions", "my def", "definitions", "in"]⟩, .obj [("layout", .str "text")]),
    (⟨["definitions", "my def"]⟩, .obj [
      ("definitions", .obj [("in", .obj [("x-display", .str "text")])]), ("layout", .str "card")]),
    (⟨["definitions", "my def"]⟩, .obj [
      ("definitions", .obj [("in", .obj [("x-display", .str "text")])]), ("layout", .str "card")])]

theorem walk_spliceConfluent_overlapping :
    (follow ⟨Table.builtin, {}⟩ overlappingDocument).result = .ok overlappingProgress ∧
      (walk ⟨Table.builtin, {}⟩ overlappingDocument).result
        = .ok ⟨(splice (byDepth overlappingProgress.arena)
            (migrate ⟨Table.builtin, {}⟩ .schema overlappingDocument)).2, overlappingProgress.reached⟩ ∧
      SpliceConfluent overlappingProgress.arena
        (migrate ⟨Table.builtin, {}⟩ .schema overlappingDocument) :=
  have hfollow : (follow ⟨Table.builtin, {}⟩ overlappingDocument).result = .ok overlappingProgress :=
    Trace.result_eq_ok_of_toOption (by decide +kernel)
  ⟨hfollow, walk_spliceConfluent hfollow⟩

/-- Unsorted, the outer definition would hide what the inner one is migrated to. -/
example : (splice overlappingProgress.arena (migrate ⟨Table.builtin, {}⟩ .schema overlappingDocument)).2
    ≠ (splice (byDepth overlappingProgress.arena)
        (migrate ⟨Table.builtin, {}⟩ .schema overlappingDocument)).2 := by decide +kernel

end Dialect

end Relayout
