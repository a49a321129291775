/-
  Relayout/Proofs/Template/Promotion.lean
  =======================================
  **What a detector writes, and what it leaves unpromoted.**

  A detector promotes some of the pieces that a text is cut into.  What it writes is cut into the
  promoted pieces again (`pieces_promoted`), because promoting a marker leaves the order of the
  braces as it is and puts no dollar sign before another marker (`Cut.map_promote`).  A lint tries
  every opening brace instead and sees the same markers all the same
  (`Cut.hasUnpromotedAfter_render`).  So it finds something unpromoted in what a detector wrote
  exactly if the text has a marker, not marked as an interpolation, that holds a path of at least
  two segments and of fewer than the detector asks for (`hasUnpromoted_detect`).
-/
import Relayout.Proofs.Template.Cut
import Relayout.Template.Detector

namespace Relayout.Text

theorem mem_of_mem_trim {c : Char} {cs : List Char} (h : c ∈ trim cs) : c ∈ cs := by
  have h' := (List.dropWhile_suffix isBlank).subset (List.mem_reverse.1 h)
  exact (List.dropWhile_suffix isBlank).subset (List.mem_reverse.1 h')

/-- Without blanks nothing is trimmed. -/
theorem trim_eq_self {cs : List Char} (h : ∀ c ∈ cs, isBlank c = false) : trim cs = cs := by
  have hdrop {cs : List Char} (h : ∀ c ∈ cs, isBlank c = false) : cs.dropWhile isBlank = cs := by
    cases cs with
    | nil => rfl
    | cons c cs => rw [List.dropWhile_cons, if_neg (by simp [h c List.mem_cons_self])]
  rw [trim, hdrop h, hdrop (fun c hc => h c (List.mem_reverse.1 hc)), List.reverse_reverse]

/-- A character of a text is a separator or stands in one of the parts. -/
theorem eq_or_mem_split (sep : Char) {c : Char} {cs : List Char} (h : c ∈ cs) :
    c = sep ∨ ∃ part ∈ split sep cs, c ∈ part := by
  induction cs with
  | nil => cases h
  | cons a cs ih =>
    by_cases ha : a = sep
    · rcases List.mem_cons.1 h with rfl | hrest
      · exact Or.inl ha
      · refine (ih hrest).imp_right (fun ⟨part, hpart, hc⟩ => ⟨part, ?_, hc⟩)
        rw [split, if_pos ha]
        exact List.mem_cons_of_mem _ hpart
    · cases hparts : split sep cs with
      | nil => exact absurd hparts (split_ne_nil sep cs)
      | cons first rest =>
        have hsplit : split sep (a :: cs) = (a :: first) :: rest := by simp [split, ha, hparts]
        rw [hsplit]
        rcases List.mem_cons.1 h with rfl | hmem
        · exact Or.inr ⟨_, List.mem_cons_self, List.mem_cons_self⟩
        · rw [hparts] at ih
          refine (ih hmem).imp_right ?_
          rintro ⟨part, hpart, hc⟩
          rcases List.mem_cons.1 hpart with rfl | hrest
          · exact ⟨_, List.mem_cons_self, List.mem_cons_of_mem _ hc⟩
          · exact ⟨part, List.mem_cons_of_mem _ hrest, hc⟩

end Relayout.Text

namespace Relayout.Template

/-! ### Promoted pieces -/

namespace Detector

variable (d : Detector)

/-- A marker stays, or is promoted to an interpolation of what it holds without the blanks
    around it. -/
theorem promote_marker_false (token : List Char) :
    d.promote (.marker false token) = .marker false token ∨
      d.promote (.marker false token) = .marker true (Text.trim token) := by
  rw [promote]
  split
  · exact Or.inr rfl
  · exact Or.inl rfl

/-- A promoted marker is a marker without braces in it. -/
theorem exists_promote_marker (dollar : Bool) {token : List Char}
    (h : ∀ c ∈ token, isBrace c = false) :
    ∃ dollar' token', d.promote (.marker dollar token) = .marker dollar' token' ∧
      ∀ c ∈ token', isBrace c = false := by
  cases dollar with
  | true => exact ⟨true, token, rfl, h⟩
  | false =>
    obtain hstays | hpromoted := d.promote_marker_false token
    · exact ⟨false, token, hstays, h⟩
    · exact ⟨true, Text.trim token, hpromoted, fun c hc => h c (Text.mem_of_mem_trim hc)⟩

theorem promote_char (c : Char) : d.promote (.char c) = .char c := rfl

end Detector

theorem braces_marker (dollar : Bool) {token : List Char} (h : ∀ c ∈ token, isBrace c = false) :
    (Piece.marker dollar token).text.filter isBrace = ['{', '}'] := by
  have htoken : token.filter isBrace = [] := List.filter_eq_nil_iff.2 (by simpa using h)
  cases dollar <;> simp [Piece.text, htoken, isBrace]

namespace Cut

variable {ps : List Piece} (d : Detector)

/-- Promoting markers leaves the braces of a text in their order. -/
theorem braces_promoted (h : Cut ps) :
    (render (ps.map d.promote)).filter isBrace = (render ps).filter isBrace := by
  induction h with
  | nil => rfl
  | @marker dollar token ps htoken _ ih =>
    obtain ⟨dollar', token', hpromote, htoken'⟩ := d.exists_promote_marker dollar htoken
    rw [List.map_cons, hpromote, render_cons, render_cons, List.filter_append, List.filter_append,
      braces_marker _ htoken, braces_marker _ htoken', ih]
  | char _ _ ih =>
    rw [List.map_cons, d.promote_char, render_cons, render_cons, List.filter_append,
      List.filter_append, ih]

/-- Where a promoted text begins with an opening brace, so did the text, with the same piece. -/
theorem exists_of_promoted_eq_brace {rest : List Char}
    (h : render (ps.map d.promote) = '{' :: rest) :
    (∃ after, ps = .char '{' :: after ∧ rest = render (after.map d.promote)) ∨
      ∃ token after, ps = .marker false token :: after := by
  cases ps with
  | nil => cases h
  | cons p after =>
    rw [List.map_cons, render_cons] at h
    cases p with
    | char c =>
      obtain ⟨rfl, hrest⟩ := List.cons_eq_cons.1 h
      exact Or.inl ⟨after, rfl, hrest.symm⟩
    | marker dollar token =>
      cases dollar with
      | true => cases h
      | false => exact Or.inr ⟨token, after, rfl⟩

/-- Promoted pieces are what their text is cut into. -/
theorem map_promote (h : Cut ps) : Cut (ps.map d.promote) := by
  induction h with
  | nil => exact .nil
  | @marker dollar token ps htoken _ ih =>
    obtain ⟨dollar', token', hpromote, htoken'⟩ := d.exists_promote_marker dollar htoken
    rw [List.map_cons, hpromote]
    exact .marker htoken' ih
  | @char c ps hmarker hcut ih =>
    refine .char (marker?_cons_eq_none_iff.2 ⟨?_, ?_⟩) ih
    · intro hc
      rw [closing?_eq_none_congr (hcut.braces_promoted d)]
      exact (marker?_cons_eq_none_iff.1 hmarker).1 hc
    · -- after a dollar sign the brace was there before, and was not closed
      rintro rfl rest hrest
      obtain ⟨after, rfl, rfl⟩ | ⟨token, after, rfl⟩ := exists_of_promoted_eq_brace d hrest
      · cases hcut with
        | char hopen hafter =>
          rw [closing?_eq_none_congr (hafter.braces_promoted d)]
          exact (marker?_cons_eq_none_iff.1 hopen).1 rfl
      · exact absurd rfl ((Cut.char hmarker hcut).ne_marker_of_dollar token after)

end Cut

/-- What a detector writes is cut into the pieces that it promoted. -/
theorem Detector.pieces_promoted (d : Detector) (cs : List Char) :
    pieces (render ((pieces cs).map d.promote)) = (pieces cs).map d.promote :=
  ((cut_pieces cs).map_promote d).pieces_render

/-! ### Paths -/

theorem isBlank_eq_false_of_isIdentifierChar {c : Char} (h : isIdentifierChar c = true) :
    Text.isBlank c = false := by
  simp only [isIdentifierChar, isIdentifierStart, Bool.or_eq_true, Bool.and_eq_true,
    decide_eq_true_eq, Char.le_def, UInt32.le_iff_toNat_le] at h
  simp only [Text.isBlank, Char.toNat, Bool.or_eq_false_iff, Bool.and_eq_false_iff,
    decide_eq_false_iff_not]
  rcases h with (((h | h) | rfl) | rfl) | h
  · have hA : 'A'.val.toNat = 65 := rfl
    have hZ : 'Z'.val.toNat = 90 := rfl
    omega
  · have ha : 'a'.val.toNat = 97 := rfl
    have hz : 'z'.val.toNat = 122 := rfl
    omega
  · decide
  · decide
  · have h0 : '0'.val.toNat = 48 := rfl
    have h9 : '9'.val.toNat = 57 := rfl
    omega

/-- A path has no blanks. -/
theorem isBlank_eq_false_of_isPath {cs : List Char} (h : isPath cs = true) :
    ∀ c ∈ cs, Text.isBlank c = false := by
  intro c hc
  rcases Text.eq_or_mem_split '.' hc with rfl | ⟨part, hpart, hmem⟩
  · decide
  · have hidentifier := List.all_eq_true.1 h part hpart
    cases part with
    | nil => cases hmem
    | cons a part =>
      rw [isIdentifier, Bool.and_eq_true] at hidentifier
      apply isBlank_eq_false_of_isIdentifierChar
      rcases List.mem_cons.1 hmem with rfl | hrest
      · rw [isIdentifierChar, hidentifier.1, Bool.true_or]
      · exact List.all_eq_true.1 hidentifier.2 c hrest

theorem trim_eq_self_of_isPath {cs : List Char} (h : isPath cs = true) : Text.trim cs = cs :=
  Text.trim_eq_self (isBlank_eq_false_of_isPath h)

/-! ### What is left -/

/-- Whether a piece is a reference that a lint asks for: a path of at least two segments. -/
def Piece.isReference : Piece → Bool
  | .marker false token => isPath token && decide (2 ≤ (segments token).length)
  | _ => false

theorem Piece.isReference_char (c : Char) : (Piece.char c).isReference = false := rfl

/-- Whether a piece is a reference that a lint asks for and a detector does not promote. -/
def Detector.leaves (d : Detector) : Piece → Bool
  | .marker false token =>
    isPath token && decide (2 ≤ (segments token).length) &&
      decide ((segments token).length < d.minSegments)
  | _ => false

/-- There is no unpromoted reference in a text without opening braces. -/
theorem hasUnpromotedAfter_append {token : List Char} (h : ∀ c ∈ token, isBrace c = false)
    (before : Option Char) (rest : List Char) :
    hasUnpromotedAfter before (token ++ '}' :: rest) = hasUnpromotedAfter (some '}') rest := by
  induction token generalizing before with
  | nil => simp [hasUnpromotedAfter]
  | cons c token ih =>
    obtain ⟨hc, htoken⟩ := List.forall_mem_cons.1 h
    simp only [isBrace, Bool.or_eq_false_iff, decide_eq_false_iff_not] at hc
    rw [List.cons_append, hasUnpromotedAfter, ih htoken]
    simp [hc.1]

/-- A lint finds something in a text exactly if one of its pieces is a reference. Before a marker
    that is no interpolation there is no dollar sign. -/
theorem Cut.hasUnpromotedAfter_render {ps : List Piece} (h : Cut ps) {before : Option Char}
    (hbefore : before = some '$' → ∀ token rest, ps ≠ .marker false token :: rest) :
    hasUnpromotedAfter before (render ps) = ps.any Piece.isReference := by
  induction h generalizing before with
  | nil => rfl
  | @marker dollar token ps htoken _ ih =>
    have hrest : hasUnpromotedAfter (some '}') (render ps) = _ := ih (by simp)
    rw [List.any_cons, ← hrest]
    cases dollar with
    | true =>
      rw [show render (.marker true token :: ps) = '$' :: '{' :: (token ++ '}' :: render ps) by
        simp [render_cons, Piece.text], hasUnpromotedAfter, hasUnpromotedAfter,
        hasUnpromotedAfter_append htoken]
      simp [Piece.isReference]
    | false =>
      have hdollar : before ≠ some '$' := fun hdollar => hbefore hdollar token ps rfl
      rw [show render (.marker false token :: ps) = '{' :: (token ++ '}' :: render ps) by
        simp [render_cons, Piece.text], hasUnpromotedAfter,
        hasUnpromotedAfter_append htoken, startsWithPath, closing?_append htoken]
      simp [Piece.isReference, hdollar]
  | @char c ps hmarker hcut ih =>
    have hnext : some c = some '$' → ∀ token rest, ps ≠ .marker false token :: rest := by
      rintro ⟨⟩
      exact (Cut.char hmarker hcut).ne_marker_of_dollar
    have hstart : (c = '{' && before ≠ some '$' && startsWithPath (render ps)) = false := by
      by_cases hc : c = '{'
      · rw [startsWithPath, (marker?_cons_eq_none_iff.1 hmarker).1 hc]
        simp
      · simp [hc]
    rw [render_cons, Piece.text, List.singleton_append, hasUnpromotedAfter, hstart,
      List.any_cons, Piece.isReference_char, ih hnext]

theorem hasUnpromoted_eq (text : String) :
    hasUnpromoted text = (pieces text.toList).any Piece.isReference := by
  have h : hasUnpromotedAfter none (render (pieces text.toList)) = _ :=
    (cut_pieces text.toList).hasUnpromotedAfter_render nofun
  rw [hasUnpromoted, ← h, render_pieces]

namespace Detector

variable (d : Detector)

/-- What is left of a piece is a reference exactly if the detector leaves it. -/
theorem isReference_promote (p : Piece) : (d.promote p).isReference = d.leaves p := by
  cases p with
  | char c => rfl
  | marker dollar token =>
    cases dollar with
    | true => rfl
    | false =>
      rw [promote, leaves, isPromotable]
      cases hpath : isPath token with
      | false => split <;> simp [Piece.isReference, hpath]
      | true =>
        -- a path has no blanks, so that it is promoted as it stands
        rw [trim_eq_self_of_isPath hpath, hpath, Bool.true_and, Bool.true_and]
        by_cases hsegments : d.minSegments ≤ (segments token).length
        · simp [Piece.isReference, hsegments]
        · simp [Piece.isReference, hpath, hsegments, Nat.lt_of_not_le hsegments]

/-- A lint finds something unpromoted in what a detector wrote exactly if the detector left it. -/
theorem hasUnpromoted_detect (raw : String) (role : Role) :
    hasUnpromoted (d.detect raw role).expr = (pieces raw.toList).any d.leaves := by
  rw [hasUnpromoted_eq, detect, String.toList_ofList, d.pieces_promoted, List.any_map]
  exact congrArg _ (funext d.isReference_promote)

/-- A detector that asks for two segments at most leaves nothing to be found. -/
theorem hasUnpromoted_detect_eq_false (h : d.minSegments ≤ 2) (raw : String) (role : Role) :
    hasUnpromoted (d.detect raw role).expr = false := by
  rw [hasUnpromoted_detect, List.any_eq_false]
  intro p _
  cases p with
  | char c => simp [leaves]
  | marker dollar token =>
    cases dollar with
    | true => simp [leaves]
    | false =>
      simp only [leaves, Bool.and_eq_true, decide_eq_true_eq]
      omega

end Detector

end Relayout.Template
