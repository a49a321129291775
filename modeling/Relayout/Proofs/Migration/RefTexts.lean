/-
  Relayout/Proofs/Migration/RefTexts.lean
  =======================================
  **Where the reference texts of a document stand.**

  The texts that are collected from a value are the strings that stand under `$ref` in an object
  of it, at any depth (`Json.mem_refTexts_iff`).  So a document refers to itself exactly if one of
  these strings begins with a number sign (`Json.refersWithin_iff`).
-/
import Relayout.Proofs.Json.KeyOrder
import Relayout.Proofs.Migration.Resolved

namespace Relayout

namespace Json

/-- Some object has a reference into the same document. -/
def RefersWithin (document : Json) : Prop :=
  ∃ (place : Place) (node : Members) (ref : String), document.at? place = some (.obj node) ∧
    node.get? "$ref" = some (.str ref) ∧ ref.toList.head? = some '#'

variable {document : Json}

theorem memberRefTexts_eq (ms : Members) : memberRefTexts ms = ms.flatMap
    (fun m => (if m.1 = "$ref" then m.2.asString?.toList else []) ++ m.2.refTexts) := by
  induction ms with
  | nil => rfl
  | cons m ms ih => rw [memberRefTexts, ih, List.flatMap_cons]

theorem elementRefTexts_eq (xs : List Json) : elementRefTexts xs = xs.flatMap refTexts := by
  induction xs with
  | nil => rfl
  | cons x xs ih => rw [elementRefTexts, ih, List.flatMap_cons]

theorem asString?_eq_some_iff {v : Json} {text : String} :
    v.asString? = some text ↔ v = .str text := by
  cases v <;> simp [asString?]

/-- A reference text stands under its key in an object. -/
theorem exists_at?_of_mem_refTexts {v : Json} (hv : v.WellFormed) {ref : String}
    (h : ref ∈ v.refTexts) : ∃ (place : Place) (node : Members), v.at? place = some (.obj node) ∧
      node.get? "$ref" = some (.str ref) := by
  induction v using induction_on_children with
  | step v ih =>
    have hbelow {name : String} {w : Json} (hchild : v.child? name = some w)
        (hmem : ref ∈ w.refTexts) : ∃ (place : Place) (node : Members),
          v.at? place = some (.obj node) ∧ node.get? "$ref" = some (.str ref) := by
      obtain ⟨place, node, hat, href⟩ := ih name w hchild (hv.child hchild) hmem
      exact ⟨name :: place, node, by rw [at?_cons, hchild, Option.bind_some, hat], href⟩
    cases v with
    | obj ms =>
      rw [refTexts, memberRefTexts_eq] at h
      obtain ⟨m, hm, hmem⟩ := List.mem_flatMap.1 h
      have hget : Members.get? ms m.1 = some m.2 := (Members.get?_eq_some_iff hv.1).2 hm
      rcases List.mem_append.1 hmem with hself | hvalue
      · split at hself
        · rename_i hkey
          rw [Option.mem_toList, asString?_eq_some_iff] at hself
          exact ⟨[], ms, rfl, by rw [← hkey, hget, hself]⟩
        · cases hself
      · exact hbelow hget hvalue
    | arr xs =>
      rw [refTexts, elementRefTexts_eq] at h
      obtain ⟨x, hx, hmem⟩ := List.mem_flatMap.1 h
      obtain ⟨i, hi⟩ := List.mem_iff_getElem?.1 hx
      exact hbelow ((child?_toString xs i).trans hi) hmem
    | null | bool | num | str => cases h

/-- The texts of a document are the strings under the key in its objects. -/
theorem mem_refTexts_iff {v : Json} (hv : v.WellFormed) {ref : String} : ref ∈ v.refTexts ↔
    ∃ (place : Place) (node : Members), v.at? place = some (.obj node) ∧
      node.get? "$ref" = some (.str ref) := by
  constructor
  · exact exists_at?_of_mem_refTexts hv
  · rintro ⟨place, node, hat, href⟩
    apply refTexts_subset_of_at? hat
    exact mem_memberRefTexts (by rw [href]; rfl)

theorem internalFragment?_isSome_iff {ref : String} :
    (internalFragment? ref).isSome = true ↔ ref.toList.head? = some '#' := by
  unfold internalFragment?
  split
  · rename_i hchars
    simp [hchars]
  · rename_i hother
    cases hchars : ref.toList with
    | nil => simp
    | cons c cs =>
      constructor
      · intro h
        cases h
      · intro h
        cases h
        exact absurd hchars (hother cs)

/-- A document refers to itself if one of its texts has a number sign in front. -/
theorem refersWithin_iff (hdocument : document.WellFormed) :
    document.RefersWithin ↔ ∃ ref ∈ document.refTexts, (internalFragment? ref).isSome = true := by
  simp only [RefersWithin, mem_refTexts_iff hdocument, internalFragment?_isSome_iff]
  constructor
  · rintro ⟨place, node, ref, hat, href, hsign⟩
    exact ⟨ref, ⟨place, node, hat, href⟩, hsign⟩
  · rintro ⟨ref, ⟨place, node, hat, href⟩, hsign⟩
    exact ⟨place, node, ref, hat, href, hsign⟩

end Json

end Relayout
