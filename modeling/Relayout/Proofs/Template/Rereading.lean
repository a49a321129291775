/-
  Relayout/Proofs/Template/Rereading.lean
  =======================================
  **What is read in a text that a detector wrote.**

  A text that a detector wrote may be read once more: by a detector, perhaps with another
  threshold, or by a lint that looks for references without a dollar sign.  Both find in it the
  pieces of the first text, promoted or as they were (`Detector.pieces_promoted`).  So two
  detectors do what one with the lower of their thresholds does (`Detector.composes_detect`), and
  a lint finds exactly the markers that hold a path too short for the detector
  (`Detector.unpromoted_detect`).
-/
import Relayout.Proofs.Template.Rewriting

namespace Relayout.Template

namespace Detector

/-! ### Another detector -/

theorem isPromotable_ofMin_min (a b : Nat) (token : List Char) :
    (ofMin (min a b)).isPromotable token
      = ((ofMin a).isPromotable token || (ofMin b).isPromotable token) := by
  have hthreshold (n : Nat) : max (min a b) 1 ≤ n ↔ max a 1 ≤ n ∨ max b 1 ≤ n := by omega
  rw [isPromotable, isPromotable, isPromotable, ← Bool.and_or_distrib_left, ← Bool.decide_or]
  exact congrArg _ (decide_eq_decide.2 (hthreshold _))

/-- What one detector leaves of a piece is promoted by the next, or by none of the two. -/
theorem promote_promote (a b : Nat) (p : Piece) :
    (ofMin b).promote ((ofMin a).promote p) = (ofMin (min a b)).promote p := by
  cases p with
  | char c => rfl
  | marker dollar token =>
    cases dollar with
    | true => rfl
    | false =>
      simp only [promote, isPromotable_ofMin_min a b token]
      cases hfirst : (ofMin a).isPromotable token with
      | true => rfl
      | false => rfl

theorem detect_detect (a b : Nat) (raw : String) (first role : Role) :
    (ofMin b).detect ((ofMin a).detect raw first).expr role
      = (ofMin (min a b)).detect raw role := by
  have hpieces : (pieces ((ofMin a).detect raw first).expr.toList).map (ofMin b).promote
      = (pieces raw.toList).map (ofMin (min a b)).promote := by
    rw [detect, String.toList_ofList, (ofMin a).pieces_promoted, List.map_map]
    exact List.map_congr_left fun p _ => promote_promote a b p
  rw [detect, hpieces]
  rfl

/-- Two detectors one after the other do what one with the lower of their thresholds does. Hence
    a detector leaves alone what it wrote, and of two detectors either may come first. -/
theorem composes_detect (a b : Nat) (raw : String) (first role : Role) :
    (ofMin b).detect ((ofMin a).detect raw first).expr role
      = (ofMin (min a b)).detect raw role ∧
    (ofMin a).detect ((ofMin a).detect raw first).expr role = (ofMin a).detect raw role ∧
    (ofMin b).detect ((ofMin a).detect raw first).expr role
      = (ofMin a).detect ((ofMin b).detect raw first).expr role := by
  refine ⟨detect_detect a b raw first role, ?_, ?_⟩
  · rw [detect_detect, Nat.min_self]
  · rw [detect_detect, detect_detect, Nat.min_comm]

end Detector

/-! ### A lint -/

/-- What is looked for in the markers among the pieces of a text is there exactly if a marker
    without a dollar sign before it holds it. -/
theorem any_pieces_iff {cs : List Char} {found : Piece → Bool} {Holds : List Char → Prop}
    (hmarker : ∀ token, found (.marker false token) = true ↔ Holds token)
    (hdollar : ∀ token, found (.marker true token) = false) (hchar : ∀ c, found (.char c) = false) :
    (pieces cs).any found = true ↔
      ∃ before token after, Occurs cs before token after ∧ before.getLast? ≠ some '$' ∧
        Holds token := by
  rw [List.any_eq_true]
  constructor
  · rintro ⟨p, hmem, hp⟩
    obtain ⟨token, rfl⟩ : ∃ token, p = .marker false token := by
      cases p with
      | char c => simp [hchar] at hp
      | marker dollar token =>
        cases dollar with
        | true => simp [hdollar] at hp
        | false => exact ⟨token, rfl⟩
    obtain ⟨l, r, hpieces⟩ := List.append_of_mem hmem
    have hoccurs : Occurs cs (render l ++ dollarText false) token (render r) :=
      occurs_iff_pieces.2 ⟨l, false, r, hpieces, rfl, rfl⟩
    refine ⟨_, token, _, hoccurs, ?_, (hmarker token).1 hp⟩
    rw [dollarText, if_neg Bool.false_ne_true, List.append_nil]
    exact getLast?_render_ne_dollar hpieces
  · rintro ⟨before, token, after, hoccurs, hbefore, hholds⟩
    obtain ⟨l, dollar, r, hpieces, rfl, rfl⟩ := occurs_iff_pieces.1 hoccurs
    cases dollar with
    | true => exact absurd (by simp [dollarText]) hbefore
    | false => exact ⟨.marker false token, by rw [hpieces]; simp, (hmarker token).2 hholds⟩

namespace Detector

variable (d : Detector)

/-- A lint finds something unpromoted in what a detector wrote exactly if the text has a marker
    without a dollar sign before it that holds, as it stands, a path of two segments or more but
    of fewer than the detector asks for. A detector that asks for two at most leaves nothing to be
    found. -/
theorem unpromoted_detect (raw : String) (role : Role) :
    (hasUnpromoted (d.detect raw role).expr = true ↔
      ∃ before token after, Occurs raw.toList before token after ∧
        before.getLast? ≠ some '$' ∧ HoldsPath token (fun n => 2 ≤ n ∧ n < d.minSegments)) ∧
    (d.minSegments ≤ 2 → hasUnpromoted (d.detect raw role).expr = false) := by
  constructor
  · rw [d.hasUnpromoted_detect]
    refine any_pieces_iff ?_ (fun _ => rfl) (fun _ => rfl)
    intro token
    rw [holdsPath_iff _ (by omega), leaves]
    simp only [Bool.and_eq_true, decide_eq_true_eq, and_assoc]
  · intro h
    exact d.hasUnpromoted_detect_eq_false h raw role

/-- A text in which a detector that asks for three segments leaves one marker of two, beside a
    marker with blanks, an interpolation and a longer path. -/
def shortPath : String := "\x7b a.b \x7d\x7bx.y\x7d$\x7bp.q\x7d\x7ba.b.c\x7d"

theorem unpromoted_detect_shortPath :
    hasUnpromoted ((ofMin 3).detect shortPath .url).expr = true ∧
      hasUnpromoted ((ofMin 2).detect shortPath .url).expr = false := by
  refine ⟨((ofMin 3).unpromoted_detect shortPath .url).1.2 ?_,
    ((ofMin 2).unpromoted_detect shortPath .url).2 (by decide)⟩
  refine ⟨"\x7b a.b \x7d".toList, "x.y".toList, "$\x7bp.q\x7d\x7ba.b.c\x7d".toList, ?_, by decide,
    ?_⟩
  · exact ⟨by decide, by simp [isBrace]⟩
  · exact ⟨["x".toList, "y".toList], by decide, by decide, by decide⟩

end Detector

end Relayout.Template
