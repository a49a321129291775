/-
  Relayout/Proofs/Template/Cut.lean
  =================================
  **Which pieces a text is cut into.**

  A text is cut from the left, so not every list of pieces comes from a text: a character among
  them begins no marker with what follows it, and no marker holds a brace (`Cut`).  Of these lists
  each is what its own text is cut into (`Cut.pieces_render`), so that a text is known by its
  pieces and the end of a text is cut by itself as it is there.
-/
import Relayout.Template.Marker

namespace Relayout.Template

/-- A brace. -/
def isBrace (c : Char) : Bool := c = '{' || c = '}'

/-! ### Braces -/

theorem not_isBrace_of_closing? {cs token rest : List Char}
    (h : closing? cs = some (token, rest)) : ∀ c ∈ token, isBrace c = false := by
  induction cs generalizing token with
  | nil => cases h
  | cons c cs ih =>
    rw [closing?] at h
    split at h
    · cases h
      simp
    · rename_i hclosing
      split at h
      · cases h
      · rename_i hopening
        obtain ⟨⟨inner, after⟩, hinner, heq⟩ := Option.map_eq_some_iff.1 h
        cases heq
        exact List.forall_mem_cons.2 ⟨by simp [isBrace, hclosing, hopening], ih hinner⟩

/-- A text without braces goes up to the closing brace after it. -/
theorem closing?_append {token : List Char} (h : ∀ c ∈ token, isBrace c = false)
    (rest : List Char) : closing? (token ++ '}' :: rest) = some (token, rest) := by
  induction token with
  | nil => rfl
  | cons c token ih =>
    obtain ⟨hc, htoken⟩ := List.forall_mem_cons.1 h
    simp only [isBrace, Bool.or_eq_false_iff, decide_eq_false_iff_not] at hc
    rw [List.cons_append, closing?, if_neg hc.2, if_neg hc.1, ih htoken]
    rfl

/-- A marker is closed exactly if the next brace is a closing one. -/
theorem closing?_isSome_iff (cs : List Char) :
    (closing? cs).isSome = true ↔ (cs.filter isBrace).head? = some '}' := by
  induction cs with
  | nil => simp [closing?]
  | cons c cs ih =>
    rw [closing?]
    by_cases hclosing : c = '}'
    · subst hclosing
      simp [isBrace]
    · by_cases hopening : c = '{'
      · subst hopening
        simp [isBrace]
      · simpa [isBrace, hclosing, hopening] using ih

/-- Whether a marker is closed is told by the braces of a text alone. -/
theorem closing?_eq_none_congr {cs ds : List Char} (h : cs.filter isBrace = ds.filter isBrace) :
    closing? cs = none ↔ closing? ds = none := by
  rw [← Option.not_isSome_iff_eq_none, ← Option.not_isSome_iff_eq_none, closing?_isSome_iff,
    closing?_isSome_iff, h]

/-! ### Markers -/

def dollarText (dollar : Bool) : List Char := if dollar then ['$'] else []

theorem text_marker (dollar : Bool) (token : List Char) :
    (Piece.marker dollar token).text = dollarText dollar ++ '{' :: (token ++ ['}']) := by
  cases dollar <;> simp [Piece.text, dollarText]

/-- A marker that opens and is closed, with the text in it. -/
theorem exists_closing?_of_marker? {cs rest : List Char} {p : Piece}
    (h : marker? cs = some (p, rest)) :
    ∃ dollar token, p = .marker dollar token ∧ (∀ c ∈ token, isBrace c = false) := by
  unfold marker? at h
  split at h
  · obtain ⟨⟨token, after⟩, hclosing, heq⟩ := Option.map_eq_some_iff.1 h
    cases heq
    exact ⟨true, token, rfl, not_isBrace_of_closing? hclosing⟩
  · obtain ⟨⟨token, after⟩, hclosing, heq⟩ := Option.map_eq_some_iff.1 h
    cases heq
    exact ⟨false, token, rfl, not_isBrace_of_closing? hclosing⟩
  · cases h

/-- The text of a marker begins with that marker, whatever follows. -/
theorem marker?_text_append (dollar : Bool) {token : List Char}
    (h : ∀ c ∈ token, isBrace c = false) (rest : List Char) :
    marker? ((Piece.marker dollar token).text ++ rest) = some (.marker dollar token, rest) := by
  cases dollar <;> simp [Piece.text, marker?, closing?_append h]

/-- A character begins no marker if no brace that it opens, itself or after a dollar sign, is
    closed. -/
theorem marker?_cons_eq_none_iff {c : Char} {cs : List Char} :
    marker? (c :: cs) = none ↔
      (c = '{' → closing? cs = none) ∧
        (c = '$' → ∀ rest, cs = '{' :: rest → closing? rest = none) := by
  unfold marker?
  split
  · rename_i rest heq
    obtain ⟨rfl, rfl⟩ := List.cons_eq_cons.1 heq
    simp
  · rename_i rest heq
    obtain ⟨rfl, rfl⟩ := List.cons_eq_cons.1 heq
    simp
  · rename_i hdollar hbrace
    simp only [true_iff]
    constructor
    · rintro rfl
      exact absurd rfl (hbrace cs)
    · rintro rfl rest rfl
      exact absurd rfl (hdollar rest)

/-! ### Cuts -/

/-- A list of pieces into which a text is cut. -/
inductive Cut : List Piece → Prop where
  | nil : Cut []
  | marker {dollar : Bool} {token : List Char} {ps : List Piece} :
    (∀ c ∈ token, isBrace c = false) → Cut ps → Cut (.marker dollar token :: ps)
  | char {c : Char} {ps : List Piece} :
    marker? (c :: render ps) = none → Cut ps → Cut (.char c :: ps)

theorem render_cons (p : Piece) (ps : List Piece) : render (p :: ps) = p.text ++ render ps := rfl

theorem cut_pieces (cs : List Char) : Cut (pieces cs) := by
  fun_induction pieces cs with
  | case1 => exact .nil
  | case2 c cs p rest h _ ih =>
    obtain ⟨dollar, token, rfl, htoken⟩ := exists_closing?_of_marker? h
    exact .marker htoken ih
  | case3 c cs h ih =>
    refine .char ?_ ih
    rw [render_pieces]
    exact h

namespace Cut

theorem of_append {l r : List Piece} (h : Cut (l ++ r)) : Cut r := by
  induction l with
  | nil => exact h
  | cons p l ih =>
    cases h with
    | marker _ hrest => exact ih hrest
    | char _ hrest => exact ih hrest

/-- A text is cut into the pieces that it was written from, if they can come from a text. -/
theorem pieces_render {ps : List Piece} (h : Cut ps) : pieces (render ps) = ps := by
  induction h with
  | nil => rw [render, List.flatMap_nil, pieces]
  | @marker dollar token ps htoken _ ih =>
    rw [render_cons, pieces_of_marker? (marker?_text_append dollar htoken _), ih]
  | char hmarker _ ih =>
    rw [render_cons, Piece.text, List.singleton_append, pieces_cons_of_marker?_eq_none hmarker, ih]

/-- After a dollar sign that belongs to no marker there is no marker without one. -/
theorem ne_marker_of_dollar {ps : List Piece} (h : Cut (.char '$' :: ps)) (token : List Char)
    (rest : List Piece) : ps ≠ .marker false token :: rest := by
  rintro rfl
  cases h with
  | char hmarker hcut =>
    cases hcut with
    | marker htoken =>
      have hopen := (marker?_cons_eq_none_iff.1 hmarker).2 rfl (token ++ '}' :: render rest)
        (by simp [render_cons, Piece.text])
      rw [closing?_append htoken] at hopen
      cases hopen

end Cut

end Relayout.Template
