/-
  Relayout/Text/Split.lean
  ========================
  **Cutting a text at every occurrence of a separator.**

  `n` separators cut a text into `n + 1` parts, some of them perhaps empty; `join` puts the
  separators back.
-/

namespace Relayout.Text

/-- The parts of a text between separators. -/
def split (sep : Char) : List Char → List (List Char)
  | [] => [[]]
  | c :: cs =>
    if c = sep then [] :: split sep cs
    else
      match split sep cs with
      | [] => [[c]]
      | part :: parts => (c :: part) :: parts

/-- Parts with a separator between each two. -/
def join (sep : Char) : List (List Char) → List Char
  | [] => []
  | [part] => part
  | part :: parts => part ++ sep :: join sep parts

theorem split_ne_nil (sep : Char) (cs : List Char) : split sep cs ≠ [] := by
  cases cs with
  | nil => simp [split]
  | cons c cs =>
    by_cases h : c = sep
    · simp [split, h]
    · cases hs : split sep cs <;> simp [split, h, hs]

theorem join_split (sep : Char) (cs : List Char) : join sep (split sep cs) = cs := by
  induction cs with
  | nil => rfl
  | cons c cs ih =>
    cases hs : split sep cs with
    | nil => exact absurd hs (split_ne_nil sep cs)
    | cons part parts =>
      rw [hs] at ih
      by_cases h : c = sep
      · simp [split, h, join, hs, ih]
      · cases parts with
        | nil => simpa [split, h, hs, join] using ih
        | cons p ps => simpa [split, h, hs, join] using ih

theorem not_mem_of_mem_split {sep : Char} {cs part : List Char} (h : part ∈ split sep cs) :
    sep ∉ part := by
  induction cs generalizing part with
  | nil =>
    rw [split, List.mem_singleton] at h
    simp [h]
  | cons c cs ih =>
    cases hs : split sep cs with
    | nil => exact absurd hs (split_ne_nil sep cs)
    | cons first parts =>
      rw [hs] at ih
      by_cases hc : c = sep
      · rw [split, if_pos hc, hs] at h
        rcases List.mem_cons.1 h with rfl | hrest
        · exact List.not_mem_nil
        · exact ih hrest
      · rw [split, if_neg hc, hs] at h
        rcases List.mem_cons.1 h with rfl | hrest
        · rw [List.mem_cons, not_or]
          exact ⟨Ne.symm hc, ih List.mem_cons_self⟩
        · exact ih (List.mem_cons_of_mem _ hrest)

theorem split_of_not_mem {sep : Char} {part : List Char} (h : sep ∉ part) :
    split sep part = [part] := by
  induction part with
  | nil => rfl
  | cons c cs ih =>
    rw [List.mem_cons, not_or] at h
    rw [split, if_neg (Ne.symm h.1), ih h.2]

theorem split_append {sep : Char} {part : List Char} (h : sep ∉ part) (cs : List Char) :
    split sep (part ++ sep :: cs) = part :: split sep cs := by
  induction part with
  | nil => simp [split]
  | cons c rest ih =>
    rw [List.mem_cons, not_or] at h
    rw [List.cons_append, split, if_neg (Ne.symm h.1), ih h.2]

theorem split_append_split (sep : Char) (cs rest : List Char) :
    split sep (cs ++ sep :: rest) = split sep cs ++ split sep rest := by
  induction cs with
  | nil => simp [split]
  | cons c cs ih =>
    by_cases hc : c = sep
    · rw [List.cons_append, split, split, if_pos hc, if_pos hc, ih, List.cons_append]
    · cases hs : split sep cs with
      | nil => exact absurd hs (split_ne_nil sep cs)
      | cons part parts =>
        rw [hs] at ih
        simp [split, hc, ih, hs]

/-- Parts that do not hold the separator are found again. -/
theorem split_flatMap {sep : Char} {part : List Char} {parts : List (List Char)}
    (hpart : sep ∉ part) (hparts : ∀ other ∈ parts, sep ∉ other) :
    split sep (part ++ parts.flatMap (fun other => sep :: other)) = part :: parts := by
  induction parts generalizing part with
  | nil => simpa using split_of_not_mem hpart
  | cons other parts ih =>
    obtain ⟨hother, hrest⟩ := List.forall_mem_cons.1 hparts
    rw [List.flatMap_cons, List.cons_append, split_append hpart, ih hother hrest]

/-- Parts that do not hold the separator are found again where they were joined. -/
theorem split_join {sep : Char} {parts : List (List Char)} (hne : parts ≠ [])
    (h : ∀ part ∈ parts, sep ∉ part) : split sep (join sep parts) = parts := by
  induction parts with
  | nil => exact absurd rfl hne
  | cons part parts ih =>
    obtain ⟨hpart, hrest⟩ := List.forall_mem_cons.1 h
    cases parts with
    | nil => exact split_of_not_mem hpart
    | cons other rest =>
      rw [show join sep (part :: other :: rest) = part ++ sep :: join sep (other :: rest) from rfl,
        split_append hpart, ih (List.cons_ne_nil _ _) hrest]

theorem flatMap_eq_join {sep : Char} {parts : List (List Char)} (h : parts ≠ []) :
    parts.flatMap (fun part => sep :: part) = sep :: join sep parts := by
  induction parts with
  | nil => exact absurd rfl h
  | cons part parts ih =>
    cases parts with
    | nil => simp [join]
    | cons other rest =>
      rw [List.flatMap_cons, ih (List.cons_ne_nil _ _), List.cons_append]
      rfl

end Relayout.Text
