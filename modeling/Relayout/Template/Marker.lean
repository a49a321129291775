/-
  Relayout/Template/Marker.lean
  =============================
  **Text with interpolation markers in it.**

  A marker is a pair of braces with no brace between them; a dollar sign right before it
  makes it an interpolation that is already marked as such.  `pieces` cuts a text into
  markers and the single characters around them, from the left, and `render` writes the
  pieces out again: cutting and writing give back the text (`render_pieces`).

  The markers are the matches of the template detector's `marker_regex`.
-/

namespace Relayout.Template

/-- A part of a text: one character, or a marker with what its braces hold. -/
inductive Piece where
  | char (c : Char)
  | marker (dollar : Bool) (token : List Char)
deriving DecidableEq, Repr

/-- The text up to the closing brace of a marker, and the text after it. There is none if
    another marker opens first. -/
def closing? : List Char → Option (List Char × List Char)
  | [] => none
  | c :: cs =>
    if c = '}' then some ([], cs)
    else if c = '{' then none
    else (closing? cs).map (fun r => (c :: r.1, r.2))

theorem eq_append_of_closing? {cs token rest : List Char} (h : closing? cs = some (token, rest)) :
    cs = token ++ '}' :: rest := by
  induction cs generalizing token with
  | nil => simp [closing?] at h
  | cons c cs ih =>
    rw [closing?] at h
    split at h
    · simp_all
    · split at h
      · cases h
      · obtain ⟨⟨t, r⟩, hr, he⟩ := Option.map_eq_some_iff.1 h
        simp only [Prod.mk.injEq] at he
        obtain ⟨rfl, rfl⟩ := he
        simp [ih hr]

theorem length_lt_of_closing? {cs token rest : List Char} (h : closing? cs = some (token, rest)) :
    rest.length < cs.length := by
  rw [eq_append_of_closing? h]
  simp
  omega

/-- The marker at the start of a text, and the text after it. -/
def marker? : List Char → Option (Piece × List Char)
  | '$' :: '{' :: cs => (closing? cs).map (fun r => (.marker true r.1, r.2))
  | '{' :: cs => (closing? cs).map (fun r => (.marker false r.1, r.2))
  | _ => none

theorem length_lt_of_marker? {cs rest : List Char} {p : Piece} (h : marker? cs = some (p, rest)) :
    rest.length < cs.length := by
  unfold marker? at h
  split at h
  all_goals first
    | cases h
    | (obtain ⟨⟨t, r⟩, hr, he⟩ := Option.map_eq_some_iff.1 h
       simp only [Prod.mk.injEq] at he
       obtain ⟨_, rfl⟩ := he
       have := length_lt_of_closing? hr
       simp only [List.length_cons]
       omega)

/-- Cut a text into markers and single characters, from the left. -/
def pieces : List Char → List Piece
  | [] => []
  | c :: cs =>
    match h : marker? (c :: cs) with
    | some (p, rest) =>
      have := length_lt_of_marker? h
      p :: pieces rest
    | none => .char c :: pieces cs
termination_by cs => cs.length
decreasing_by
  · assumption
  · exact Nat.lt_succ_self cs.length

/-- A marker at the start of a text is its first piece. -/
theorem pieces_of_marker? {cs rest : List Char} {p : Piece} (h : marker? cs = some (p, rest)) :
    pieces cs = p :: pieces rest := by
  cases cs with
  | nil => cases h
  | cons c cs =>
    rw [pieces]
    split
    · rename_i heq
      rw [h] at heq
      cases heq
      rfl
    · rename_i heq
      rw [h] at heq
      cases heq

theorem pieces_cons_of_marker?_eq_none {c : Char} {cs : List Char} (h : marker? (c :: cs) = none) :
    pieces (c :: cs) = .char c :: pieces cs := by
  rw [pieces]
  split
  · rename_i heq
    rw [h] at heq
    cases heq
  · rfl

/-- The text of one piece. -/
def Piece.text : Piece → List Char
  | .char c => [c]
  | .marker dollar token => (if dollar then ['$', '{'] else ['{']) ++ token ++ ['}']

/-- The text of pieces. -/
def render (ps : List Piece) : List Char := ps.flatMap Piece.text

theorem text_append_of_marker? {cs rest : List Char} {p : Piece} (h : marker? cs = some (p, rest)) :
    p.text ++ rest = cs := by
  unfold marker? at h
  split at h
  all_goals first
    | cases h
    | (obtain ⟨⟨t, r⟩, hr, he⟩ := Option.map_eq_some_iff.1 h
       simp only [Prod.mk.injEq] at he
       obtain ⟨rfl, rfl⟩ := he
       simp [Piece.text, eq_append_of_closing? hr])

/-- Cutting loses nothing. -/
theorem render_pieces (cs : List Char) : render (pieces cs) = cs := by
  fun_induction pieces cs with
  | case1 => rfl
  | case2 c cs p rest h _ ih => simpa [render, ih] using (by
      have := text_append_of_marker? h
      rw [← this]; simp only [render] at ih; rw [ih])
  | case3 c cs h ih => simpa [render, Piece.text] using ih

end Relayout.Template
