/-
  Relayout/Proofs/Template/Rewriting.lean
  =======================================
  **What a detector rewrites, told of the text as a whole.**

  A detector cuts a text from the left.  Here its work is described without a scan: a marker
  is a pair of braces with no brace between them, wherever it stands (`Occurs`); those without
  a dollar sign before them that hold a path of enough segments become interpolations, and
  every other character stays in its place (`Detector.Rewrites`).  The cut comes to each marker
  exactly once (`occurs_iff_pieces`), so that this is what a detector does
  (`Detector.rewrites_detect`).
-/
import Relayout.Proofs.Template.Promotion

namespace Relayout.Template

/-! ### Markers of a text -/

theorem append_eq_append_cons_iff {α : Type} {first second l r : List α} {x : α}
    (hx : x ∉ first) :
    first ++ second = l ++ x :: r ↔
      ∃ between, l = first ++ between ∧ second = between ++ x :: r := by
  constructor
  · intro h
    obtain ⟨between, hl, hsecond⟩ | ⟨left, hfirst, hright⟩ := List.append_eq_append_iff.1 h
    · exact ⟨between, hl, hsecond⟩
    · cases left with
      | nil => exact ⟨[], by simpa using hfirst.symm, by simpa using hright.symm⟩
      | cons y left =>
        obtain ⟨rfl, -⟩ := List.cons_eq_cons.1 hright
        exact absurd (hfirst ▸ by simp) hx
  · rintro ⟨between, rfl, rfl⟩
    exact (List.append_assoc _ _ _).symm

/-- A marker of a text: what stands before its braces, between them and after them. -/
structure Occurs (raw before token after : List Char) : Prop where
  text_eq : raw = before ++ '{' :: (token ++ '}' :: after)
  not_isBrace : ∀ c ∈ token, isBrace c = false

theorem closing?_eq_some_iff {cs token after : List Char} :
    closing? cs = some (token, after) ↔
      cs = token ++ '}' :: after ∧ ∀ c ∈ token, isBrace c = false := by
  constructor
  · intro h
    exact ⟨eq_append_of_closing? h, not_isBrace_of_closing? h⟩
  · rintro ⟨rfl, htoken⟩
    exact closing?_append htoken after

theorem not_occurs_nil (before token after : List Char) : ¬ Occurs [] before token after := by
  intro h
  simpa using h.text_eq

theorem occurs_append_iff {start : List Char} (hstart : '{' ∉ start)
    {cs before token after : List Char} :
    Occurs (start ++ cs) before token after ↔
      ∃ between, before = start ++ between ∧ Occurs cs between token after := by
  constructor
  · intro h
    obtain ⟨between, hbefore, hcs⟩ := (append_eq_append_cons_iff hstart).1 h.text_eq
    exact ⟨between, hbefore, hcs, h.not_isBrace⟩
  · rintro ⟨between, rfl, h⟩
    exact ⟨by rw [h.text_eq, List.append_assoc], h.not_isBrace⟩

/-- An opening brace begins a marker if it is closed, and the other markers come after it. -/
theorem occurs_cons_iff {cs before token after : List Char} :
    Occurs ('{' :: cs) before token after ↔
      (before = [] ∧ closing? cs = some (token, after)) ∨
      ∃ between, before = '{' :: between ∧ Occurs cs between token after := by
  constructor
  · intro h
    cases before with
    | nil => exact Or.inl ⟨rfl, closing?_eq_some_iff.2 ⟨by simpa using h.text_eq, h.not_isBrace⟩⟩
    | cons c between =>
      obtain ⟨rfl, hcs⟩ := List.cons_eq_cons.1 h.text_eq
      exact Or.inr ⟨between, rfl, hcs, h.not_isBrace⟩
  · rintro (⟨rfl, h⟩ | ⟨between, rfl, h⟩)
    · obtain ⟨rfl, htoken⟩ := closing?_eq_some_iff.1 h
      exact ⟨rfl, htoken⟩
    · exact ⟨congrArg _ h.text_eq, h.not_isBrace⟩

theorem occurs_marker_iff {inner : List Char} (hinner : ∀ c ∈ inner, isBrace c = false)
    {rest before token after : List Char} :
    Occurs ('{' :: (inner ++ '}' :: rest)) before token after ↔
      (before = [] ∧ token = inner ∧ after = rest) ∨
      ∃ between, before = '{' :: (inner ++ '}' :: between) ∧ Occurs rest between token after := by
  have hopening : '{' ∉ inner ++ ['}'] := by
    rw [List.mem_append, not_or]
    exact ⟨fun h => absurd (hinner _ h) (by decide), by decide⟩
  rw [occurs_cons_iff, closing?_append hinner]
  refine or_congr (by simp [eq_comm]) ?_
  rw [show inner ++ '}' :: rest = (inner ++ ['}']) ++ rest by simp]
  simp only [occurs_append_iff hopening]
  constructor
  · rintro ⟨_, rfl, between, rfl, h⟩
    exact ⟨between, by simp, h⟩
  · rintro ⟨between, rfl, h⟩
    exact ⟨_, by simp, between, rfl, h⟩

/-! ### Markers among the pieces -/

/-- The markers of a text are those that it is cut into. -/
theorem occurs_iff_pieces {cs before token after : List Char} :
    Occurs cs before token after ↔
      ∃ l dollar r, pieces cs = l ++ .marker dollar token :: r ∧
        render l ++ dollarText dollar = before ∧ render r = after := by
  -- the cut takes a marker where one begins, so what it leaves has the other markers
  fun_induction pieces cs generalizing before with
  | case1 => simp [not_occurs_nil]
  | case2 c cs p rest h _ ih =>
    obtain ⟨dollar, inner, rfl, hinner⟩ := exists_closing?_of_marker? h
    have htext : c :: cs = dollarText dollar ++ '{' :: (inner ++ '}' :: rest) := by
      rw [← text_append_of_marker? h, text_marker]
      simp
    have hdollar : '{' ∉ dollarText dollar := by cases dollar <;> decide
    rw [htext]
    simp only [occurs_append_iff hdollar, occurs_marker_iff hinner, ih]
    constructor
    · rintro ⟨_, rfl, ⟨rfl, rfl, rfl⟩ | ⟨_, rfl, l, dollar', r, hpieces, rfl, rfl⟩⟩
      · exact ⟨[], dollar, pieces after, rfl, by simp [render], render_pieces after⟩
      · exact ⟨.marker dollar inner :: l, dollar', r, by rw [hpieces, List.cons_append],
          by simp [render, text_marker], rfl⟩
    · rintro ⟨l, dollar', r, hpieces, rfl, rfl⟩
      cases l with
      | nil =>
        simp only [List.nil_append, List.cons.injEq, Piece.marker.injEq] at hpieces
        obtain ⟨⟨rfl, rfl⟩, rfl⟩ := hpieces
        exact ⟨[], by simp [render], Or.inl ⟨rfl, rfl, render_pieces rest⟩⟩
      | cons p l =>
        obtain ⟨rfl, hrest⟩ := List.cons_eq_cons.1 hpieces
        exact ⟨_, by simp [render, text_marker],
          Or.inr ⟨_, rfl, l, dollar', r, hrest, rfl, rfl⟩⟩
  | case3 c cs h ih =>
    have hsplit : Occurs (c :: cs) before token after ↔
        ∃ between, before = c :: between ∧ Occurs cs between token after := by
      by_cases hc : c = '{'
      · subst hc
        have hopen : closing? cs = none := by simpa [marker?] using h
        simp [occurs_cons_iff, hopen]
      · have hstart : '{' ∉ [c] := by simpa using Ne.symm hc
        exact occurs_append_iff hstart
    rw [hsplit]
    simp only [ih]
    constructor
    · rintro ⟨_, rfl, l, dollar, r, hpieces, rfl, rfl⟩
      exact ⟨.char c :: l, dollar, r, by rw [hpieces, List.cons_append], rfl, rfl⟩
    · rintro ⟨l, dollar, r, hpieces, rfl, rfl⟩
      cases l with
      | nil => simp at hpieces
      | cons p l =>
        obtain ⟨rfl, hrest⟩ := List.cons_eq_cons.1 hpieces
        exact ⟨_, rfl, l, dollar, r, hrest, rfl, rfl⟩

/-- Before a marker that is no interpolation there is no dollar sign. -/
theorem Cut.getLast?_render_ne_dollar {token : List Char} {l r : List Piece}
    (h : Cut (l ++ .marker false token :: r)) : (render l).getLast? ≠ some '$' := by
  obtain rfl | ⟨l, p, rfl⟩ := List.eq_nil_or_concat l
  · simp [render]
  · rw [List.concat_eq_append, render, List.flatMap_append, List.flatMap_singleton]
    cases p with
    | marker dollar inner =>
      have htext : (Piece.marker dollar inner).text
          = (dollarText dollar ++ '{' :: inner) ++ ['}'] := by
        rw [text_marker, List.append_assoc]
        rfl
      rw [htext, ← List.append_assoc, List.getLast?_concat]
      decide
    | char c =>
      intro hlast
      obtain rfl : c = '$' := by simpa [Piece.text] using hlast
      have hrest : Cut (.char '$' :: .marker false token :: r) := by
        rw [List.concat_eq_append, List.append_assoc] at h
        exact h.of_append
      exact hrest.ne_marker_of_dollar token r rfl

theorem getLast?_render_ne_dollar {cs token : List Char} {l r : List Piece}
    (h : pieces cs = l ++ .marker false token :: r) : (render l).getLast? ≠ some '$' := by
  have hcut : Cut (l ++ .marker false token :: r) := h ▸ cut_pieces cs
  exact hcut.getLast?_render_ne_dollar

/-! ### Rewriting -/

/-- A part of a text that is rewritten: a character that stays, or a marker that becomes an
    interpolation. -/
inductive Part where
  | kept (c : Char)
  | promoted (token : List Char)
deriving DecidableEq, Repr

namespace Part

def old : Part → List Char
  | .kept c => [c]
  | .promoted token => '{' :: (token ++ ['}'])

def new : Part → List Char
  | .kept c => [c]
  | .promoted token => '$' :: '{' :: (Text.trim token ++ ['}'])

end Part

/-! ### Paths that a text holds -/

theorem not_mem_dot_of_isIdentifier {segment : List Char} (h : isIdentifier segment = true) :
    '.' ∉ segment := by
  cases segment with
  | nil => exact List.not_mem_nil
  | cons c cs =>
    rw [isIdentifier, Bool.and_eq_true] at h
    rintro hdot
    rcases List.mem_cons.1 hdot with rfl | hmem
    · exact absurd h.1 (by decide)
    · exact absurd (List.all_eq_true.1 h.2 '.' hmem) (by decide)

/-- A text that is, as it stands, identifiers with a dot between each two, so many of them. -/
def HoldsPath (cs : List Char) (Many : Nat → Prop) : Prop :=
  ∃ path : List (List Char), cs = Text.join '.' path ∧
    (∀ segment ∈ path, isIdentifier segment = true) ∧ Many path.length

/-- The dots of a text are the only way to take it for a path, which has at least one segment. -/
theorem holdsPath_iff {cs : List Char} (Many : Nat → Prop) (hzero : ¬ Many 0) :
    HoldsPath cs Many ↔ isPath cs = true ∧ Many (segments cs).length := by
  rw [isPath, List.all_eq_true]
  constructor
  · rintro ⟨path, rfl, hpath, hmany⟩
    have hne : path ≠ [] := by
      rintro rfl
      exact hzero hmany
    have hsegments : segments (Text.join '.' path) = path :=
      Text.split_join hne (fun segment h => not_mem_dot_of_isIdentifier (hpath segment h))
    rw [hsegments]
    exact ⟨hpath, hmany⟩
  · rintro ⟨hpath, hmany⟩
    exact ⟨segments cs, (Text.join_split '.' cs).symm, hpath, hmany⟩

/-! ### What is rewritten -/

namespace Detector

variable (d : Detector)

/-- A content that refers to the context: without the blanks around it, a dotted path of
    identifiers, of as many segments as are asked for or more. -/
def Refers (token : List Char) : Prop :=
  ∃ path : List (List Char), Text.trim token = Text.join '.' path ∧
    (∀ segment ∈ path, isIdentifier segment = true) ∧ d.minSegments ≤ path.length

/-- One text becomes another by these parts: exactly the markers that refer to the context and
    have no dollar sign before them are written anew, and everything else stays in its place. -/
structure Rewrites (raw expr : List Char) (parts : List Part) : Prop where
  old_eq : parts.flatMap Part.old = raw
  new_eq : parts.flatMap Part.new = expr
  promoted_iff : ∀ before token after,
    (∃ l r, parts = l ++ .promoted token :: r ∧
      l.flatMap Part.old = before ∧ r.flatMap Part.old = after) ↔
    Occurs raw before token after ∧ before.getLast? ≠ some '$' ∧ d.Refers token

theorem isPromotable_iff_refers (token : List Char) :
    d.isPromotable token = true ↔ d.Refers token := by
  have hzero : ¬ d.minSegments ≤ 0 := Nat.not_le.2 d.one_le_minSegments
  rw [isPromotable, Bool.and_eq_true, decide_eq_true_eq]
  exact (holdsPath_iff (fun n => d.minSegments ≤ n) hzero).symm

def parts : Piece → List Part
  | .marker false token =>
    if d.isPromotable token then [.promoted token]
    else (Piece.marker false token).text.map Part.kept
  | p => p.text.map Part.kept

theorem flatMap_old_kept (cs : List Char) : (cs.map Part.kept).flatMap Part.old = cs := by
  induction cs with
  | nil => rfl
  | cons c cs ih => simpa [Part.old] using ih

theorem flatMap_new_kept (cs : List Char) : (cs.map Part.kept).flatMap Part.new = cs := by
  induction cs with
  | nil => rfl
  | cons c cs ih => simpa [Part.new] using ih

/-- A piece is promoted, or stays with all its characters. -/
theorem parts_cases (p : Piece) :
    (∃ token, p = .marker false token ∧ d.Refers token ∧ d.parts p = [.promoted token] ∧
      d.promote p = .marker true (Text.trim token)) ∨
    ((∀ token, p = .marker false token → ¬ d.Refers token) ∧
      d.parts p = p.text.map Part.kept ∧ d.promote p = p) := by
  cases p with
  | char c => exact Or.inr ⟨by simp, rfl, rfl⟩
  | marker dollar token =>
    cases dollar with
    | true => exact Or.inr ⟨by simp, rfl, rfl⟩
    | false =>
      by_cases h : d.isPromotable token = true
      · exact Or.inl ⟨token, rfl, (d.isPromotable_iff_refers token).1 h, if_pos h, if_pos h⟩
      · refine Or.inr ⟨?_, if_neg h, if_neg h⟩
        rintro _ ⟨⟩
        rwa [← d.isPromotable_iff_refers]

theorem flatMap_old_parts (ps : List Piece) :
    (ps.flatMap d.parts).flatMap Part.old = render ps := by
  induction ps with
  | nil => rfl
  | cons p ps ih =>
    have hp : (d.parts p).flatMap Part.old = p.text := by
      obtain ⟨token, rfl, -, hparts, -⟩ | ⟨-, hparts, -⟩ := d.parts_cases p
      · simp [hparts, Part.old, Piece.text]
      · rw [hparts, flatMap_old_kept]
    rw [List.flatMap_cons, List.flatMap_append, hp, ih, render, render, List.flatMap_cons]

theorem flatMap_new_parts (ps : List Piece) :
    (ps.flatMap d.parts).flatMap Part.new = render (ps.map d.promote) := by
  induction ps with
  | nil => rfl
  | cons p ps ih =>
    have hp : (d.parts p).flatMap Part.new = (d.promote p).text := by
      obtain ⟨token, rfl, -, hparts, hpromote⟩ | ⟨-, hparts, hpromote⟩ := d.parts_cases p
      · simp [hparts, hpromote, Part.new, Piece.text]
      · rw [hparts, hpromote, flatMap_new_kept]
    rw [List.flatMap_cons, List.flatMap_append, hp, ih, List.map_cons, render, render,
      List.flatMap_cons]

/-- What is promoted are the markers that are not interpolations and refer to the context. -/
theorem flatMap_parts_eq_iff {ps : List Piece} {l r : List Part} {token : List Char} :
    ps.flatMap d.parts = l ++ .promoted token :: r ↔
      ∃ left right, ps = left ++ .marker false token :: right ∧ d.Refers token ∧
        left.flatMap d.parts = l ∧ right.flatMap d.parts = r := by
  induction ps generalizing l with
  | nil => simp
  | cons p ps ih =>
    rw [List.flatMap_cons]
    constructor
    · intro h
      obtain ⟨inner, rfl, hrefers, hparts, -⟩ | ⟨-, hparts, -⟩ := d.parts_cases p
      · rw [hparts] at h
        cases l with
        | nil =>
          obtain ⟨hhead, hrest⟩ := List.cons_eq_cons.1 h
          cases hhead
          exact ⟨[], ps, rfl, hrefers, rfl, hrest⟩
        | cons part l =>
          obtain ⟨hhead, hrest⟩ := List.cons_eq_cons.1 h
          obtain ⟨left, right, rfl, htoken, rfl, rfl⟩ := ih.1 hrest
          exact ⟨_ :: left, right, rfl, htoken, by rw [List.flatMap_cons, hparts, hhead]; rfl, rfl⟩
      · -- the characters of a piece that stays hold nothing that is promoted
        have hkept : Part.promoted token ∉ d.parts p := by simp [hparts]
        obtain ⟨between, rfl, hrest⟩ := (append_eq_append_cons_iff hkept).1 h
        obtain ⟨left, right, rfl, htoken, rfl, rfl⟩ := ih.1 hrest
        exact ⟨p :: left, right, rfl, htoken, List.flatMap_cons, rfl⟩
    · rintro ⟨left, right, hps, hrefers, rfl, rfl⟩
      cases left with
      | nil =>
        obtain ⟨rfl, rfl⟩ := List.cons_eq_cons.1 hps
        have hparts : d.parts (.marker false token) = [.promoted token] :=
          if_pos ((d.isPromotable_iff_refers token).2 hrefers)
        rw [hparts]
        rfl
      | cons q left =>
        obtain ⟨rfl, hrest⟩ := List.cons_eq_cons.1 hps
        rw [ih.2 ⟨left, right, hrest, hrefers, rfl, rfl⟩, List.flatMap_cons, List.append_assoc]

theorem rewrites_render (cs : List Char) :
    d.Rewrites cs (render ((pieces cs).map d.promote)) ((pieces cs).flatMap d.parts) where
  old_eq := by rw [flatMap_old_parts, render_pieces]
  new_eq := d.flatMap_new_parts _
  promoted_iff := by
    intro before token after
    constructor
    · rintro ⟨_, _, hparts, rfl, rfl⟩
      obtain ⟨left, right, hpieces, hrefers, rfl, rfl⟩ := d.flatMap_parts_eq_iff.1 hparts
      rw [d.flatMap_old_parts, d.flatMap_old_parts]
      exact ⟨occurs_iff_pieces.2 ⟨left, false, right, hpieces, by simp [dollarText], rfl⟩,
        getLast?_render_ne_dollar hpieces, hrefers⟩
    · rintro ⟨hoccurs, hdollar, hrefers⟩
      obtain ⟨left, dollar, right, hpieces, rfl, rfl⟩ := occurs_iff_pieces.1 hoccurs
      cases dollar with
      | true => exact absurd (by simp [dollarText]) hdollar
      | false =>
        exact ⟨left.flatMap d.parts, right.flatMap d.parts,
          d.flatMap_parts_eq_iff.2 ⟨left, right, hpieces, hrefers, rfl, rfl⟩,
          by rw [flatMap_old_parts]; simp [dollarText], d.flatMap_old_parts right⟩

/-! ### Detection -/

/-- A text has an interpolation in it after its markers are promoted exactly if a marker of it
    had a dollar sign or refers to the context. -/
theorem any_isInterpolation_iff (cs : List Char) :
    ((pieces cs).map d.promote).any Piece.isInterpolation = true ↔
      ∃ before token after, Occurs cs before token after ∧
        (before.getLast? = some '$' ∨ d.Refers token) := by
  rw [List.any_map, List.any_eq_true]
  constructor
  · rintro ⟨p, hp, hinterpolation⟩
    obtain ⟨left, right, hpieces⟩ := List.append_of_mem hp
    cases p with
    | char c => cases hinterpolation
    | marker dollar token =>
      refine ⟨_, token, _, occurs_iff_pieces.2 ⟨left, dollar, right, hpieces, rfl, rfl⟩, ?_⟩
      cases dollar with
      | true => exact Or.inl (by simp [dollarText])
      | false =>
        obtain ⟨_, ⟨⟩, hrefers, -⟩ | ⟨-, -, hpromote⟩ := d.parts_cases (.marker false token)
        · exact Or.inr hrefers
        · rw [Function.comp_apply, hpromote] at hinterpolation
          cases hinterpolation
  · rintro ⟨before, token, after, hoccurs, hdollar⟩
    obtain ⟨left, dollar, right, hpieces, rfl, rfl⟩ := occurs_iff_pieces.1 hoccurs
    refine ⟨.marker dollar token, by rw [hpieces]; simp, ?_⟩
    cases dollar with
    | true => rfl
    | false =>
      have hrefers : d.Refers token := hdollar.resolve_left (by
        simpa [dollarText] using getLast?_render_ne_dollar hpieces)
      rw [Function.comp_apply, promote, if_pos ((d.isPromotable_iff_refers token).2 hrefers)]
      rfl

theorem map_promote_eq_self {ps : List Piece}
    (h : (ps.map d.promote).any Piece.isInterpolation = false) : ps.map d.promote = ps := by
  rw [List.any_map, List.any_eq_false] at h
  refine (List.map_congr_left fun p hp => ?_).trans (List.map_id ps)
  obtain ⟨token, rfl, -, -, hpromote⟩ | ⟨-, -, hpromote⟩ := d.parts_cases p
  · exact absurd (by rw [Function.comp_apply, hpromote]; rfl) (h _ hp)
  · exact hpromote

/-- A text that is no template is left alone. -/
theorem expr_detect_of_ne_template {raw : String} {role : Role}
    (h : (d.detect raw role).classification ≠ .template) : (d.detect raw role).expr = raw := by
  have hnone : ((pieces raw.toList).map d.promote).any Piece.isInterpolation = false := by
    rw [← Bool.not_eq_true]
    intro hany
    exact h (by rw [detect, if_pos hany])
  rw [detect, d.map_promote_eq_self hnone, render_pieces, String.ofList_toList]

/-- A detector rewrites exactly the markers that refer to the context, takes a text for a
    template if it has an interpolation before or after that, and otherwise leaves it alone and
    reads it as its role says. -/
theorem rewrites_detect (raw : String) (role : Role) :
    (∃ parts, d.Rewrites raw.toList (d.detect raw role).expr.toList parts) ∧
    ((d.detect raw role).classification = .template ↔
      ∃ before token after, Occurs raw.toList before token after ∧
        (before.getLast? = some '$' ∨ d.Refers token)) ∧
    ((d.detect raw role).classification = .template ∨
      (d.detect raw role).classification = role.plain ∧ (d.detect raw role).expr = raw) := by
  have hexpr : (d.detect raw role).expr.toList = render ((pieces raw.toList).map d.promote) :=
    String.toList_ofList
  have hplain : role.plain ≠ .template := by cases role <;> decide
  refine ⟨⟨_, hexpr ▸ d.rewrites_render raw.toList⟩, ?_, ?_⟩
  · rw [← d.any_isInterpolation_iff, detect]
    cases ((pieces raw.toList).map d.promote).any Piece.isInterpolation <;> simp [hplain]
  · cases h : ((pieces raw.toList).map d.promote).any Piece.isInterpolation with
    | true => exact Or.inl (by rw [detect, if_pos h])
    | false =>
      refine Or.inr ⟨by rw [detect, if_neg (by rw [h]; decide)], ?_⟩
      rw [detect, d.map_promote_eq_self h, render_pieces, String.ofList_toList]

end Detector

end Relayout.Template
