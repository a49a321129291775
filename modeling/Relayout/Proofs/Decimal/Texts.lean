/-
  Relayout/Proofs/Decimal/Texts.lean
  ==================================
  **The texts of numbers.**

  A number is never written as a blank text (`Style.isBlankText_write_plain`), and a text is read
  as no number if it has a character that stands neither in a number nor in a word for one
  (`IsForeign.float?_eq_none`).
-/
import Relayout.Decimal.Reader
import Relayout.Decimal.Style
import Relayout.Text.Basic

namespace Relayout

/-! ### Texts that are not blank -/

namespace Text

/-- A character of a class is none that is not of it. -/
theorem ne_of_class {p : Char → Bool} {c d : Char} (hc : p c = true) (hd : p d = false) : c ≠ d := by
  rintro rfl
  rw [hc] at hd
  cases hd

theorem isBlank_eq_false_of_isDigit {c : Char} (h : c.isDigit = true) : isBlank c = false := by
  simp only [Char.isDigit, Bool.and_eq_true, decide_eq_true_eq] at h
  have hlow : 48 ≤ c.toNat := h.1
  have hhigh : c.toNat ≤ 57 := h.2
  simp [isBlank]
  omega

theorem digits?_eq_none_of_mem {c : Char} {cs : List Char} (hmem : c ∈ cs) (hc : c.isDigit = false) :
    digits? cs = none := by
  rw [digits?, if_pos]
  simp only [Bool.or_eq_true, Bool.not_eq_true', List.all_eq_false]
  exact Or.inr ⟨c, hmem, by simp [hc]⟩

theorem isBlankText_eq_false_iff {s : String} :
    isBlankText s = false ↔ ∃ c ∈ s.toList, isBlank c = false := by
  simp [isBlankText]

theorem isBlankText_toString_int (n : Int) : isBlankText (toString n) = false := by
  have hnat (k : Nat) : ∃ c ∈ (toString k).toList, isBlank c = false := by
    have hlist : (toString k).toList = Nat.toDigits 10 k := Nat.toList_repr
    obtain ⟨c, hc⟩ := List.exists_mem_of_ne_nil _ (Nat.toDigits_ne_nil (b := 10) (n := k))
    exact ⟨c, hlist ▸ hc, isBlank_eq_false_of_isDigit
      (Nat.isDigit_of_mem_toDigits (by decide) (by decide) hc)⟩
  rw [isBlankText_eq_false_iff]
  cases n with
  | ofNat k => exact hnat k
  | negSucc k => exact ⟨'-', by simp [toString, Int.repr], by decide⟩

end Text

theorem Decimal.isDigit_of_mem_ofNat {n : Nat} {exponent : Int} {c : Char}
    (h : c ∈ (Decimal.ofNat n exponent).digits) : c.isDigit = true := by
  rw [Decimal.ofNat] at h
  split at h
  · simp only [List.mem_singleton] at h
    subst h
    rfl
  · have hmem : c ∈ Nat.toDigits 10 n := by
      simpa using (List.dropWhile_sublist _).subset (List.mem_reverse.1 h)
    exact Nat.isDigit_of_mem_toDigits (by decide) (by decide) hmem

theorem Double.isDigit_of_mem_searchGrids {i : Interval} {tries : Nat} {exponent : Int} {c : Char}
    (h : c ∈ (searchGrids i tries exponent).digits) : c.isDigit = true := by
  induction tries generalizing exponent with
  | zero => exact Decimal.isDigit_of_mem_ofNat h
  | succ tries ih =>
    rw [searchGrids] at h
    cases hpoint : gridPoint? i exponent with
    | some n =>
      rw [hpoint] at h
      exact Decimal.isDigit_of_mem_ofNat h
    | none =>
      rw [hpoint] at h
      exact ih h

theorem Double.isDigit_of_mem_shortest {x : Double} {c : Char} (h : c ∈ x.shortest.digits) :
    c.isDigit = true := by
  rw [shortest] at h
  split at h
  · exact Decimal.isDigit_of_mem_ofNat h
  · exact isDigit_of_mem_searchGrids h

/-- Digits with a point among them are no blanks. -/
theorem Decimal.Style.exists_mem_positional {n : Decimal.Style} {d : Decimal}
    (h : ∀ c ∈ d.digits, c.isDigit = true) :
    ∃ c ∈ n.positional d, Text.isBlank c = false := by
  rw [positional]
  by_cases hpoint : d.point ≤ 0
  · exact ⟨'0', by simp [hpoint], by decide⟩
  · rw [if_neg hpoint]
    by_cases hlength : d.digits.length ≤ d.point.toNat
    · simp only [hlength, if_true]
      cases hdigits : d.digits with
      | nil =>
        have hzeros : d.point.toNat ≠ 0 := by omega
        exact ⟨'0', by simp [hzeros], by decide⟩
      | cons c digits =>
        exact ⟨c, by simp, Text.isBlank_eq_false_of_isDigit (h c (by simp [hdigits]))⟩
    · exact ⟨'.', by simp [hlength], by decide⟩

/-- The plain text of a float is not blank. -/
theorem Decimal.Style.isBlankText_write_plain (x : Double) :
    Text.isBlankText (plain.write x) = false := by
  rw [write]
  split
  · decide
  · rw [Text.isBlankText_eq_false_iff]
    have hpositional : plain.isPositional x.shortest.point = true := rfl
    obtain ⟨c, hmem, hblank⟩ := exists_mem_positional (n := plain)
      (fun c hc => Double.isDigit_of_mem_shortest (x := x) hc)
    by_cases hfinite : x.isFinite = true
    · exact ⟨c, by simp [hfinite, hpositional, hmem], hblank⟩
    · exact ⟨'i', by simp [hfinite], by decide⟩

/-! ### Texts that are no numbers -/

namespace Decimal

section Foreign

variable {c : Char} {cs : List Char}

/-- A character of no number and of no word for one. -/
structure IsForeign (c : Char) : Prop where
  not_alphanum : c.isAlphanum = false
  ne_plus : c ≠ '+'
  ne_minus : c ≠ '-'
  ne_point : c ≠ '.'

variable (hc : IsForeign c) (hmem : c ∈ cs)
include hc

theorem IsForeign.not_isDigit : c.isDigit = false := by
  have h : (c.isAlpha || c.isDigit) = false := hc.not_alphanum
  exact (Bool.or_eq_false_iff.1 h).2

theorem IsForeign.toLower_eq : c.toLower = c := by
  have h : ((c.isUpper || c.isLower) || c.isDigit) = false := hc.not_alphanum
  have hupper : c.isUpper = false := (Bool.or_eq_false_iff.1 (Bool.or_eq_false_iff.1 h).1).1
  exact dif_neg (of_decide_eq_false hupper)

include hmem

theorem IsForeign.mem_signed : c ∈ (Text.signed cs).2 := by
  unfold Text.signed
  split
  · exact (List.mem_cons.1 hmem).resolve_left hc.ne_plus
  · exact (List.mem_cons.1 hmem).resolve_left hc.ne_minus
  · exact hmem

theorem IsForeign.map_toLower_ne {word : String} (hword : word.toList.all Char.isAlphanum = true) :
    String.ofList (cs.map Char.toLower) ≠ word := by
  rintro rfl
  have hlower : c ∈ cs.map Char.toLower := List.mem_map.2 ⟨c, hmem, hc.toLower_eq⟩
  have halphanum := List.all_eq_true.1 hword c (by simpa using hlower)
  rw [hc.not_alphanum] at halphanum
  cases halphanum

theorem IsForeign.exponent?_eq_none : exponent? cs = none := by
  cases cs with
  | nil => cases hmem
  | cons d cs =>
    rw [exponent?]
    split
    · rename_i hd
      have halphanum : d.isAlphanum = true := by
        simp only [Bool.or_eq_true, decide_eq_true_eq] at hd
        rcases hd with rfl | rfl <;> rfl
      have hne : c ≠ d := (Text.ne_of_class halphanum hc.not_alphanum).symm
      have htail : c ∈ cs := (List.mem_cons.1 hmem).resolve_left hne
      simp [Text.digits?_eq_none_of_mem (hc.mem_signed htail) hc.not_isDigit]
    · rfl

theorem IsForeign.integer?_eq_none : integer? cs = none := by
  simp [integer?, Text.digits?_eq_none_of_mem (hc.mem_signed hmem) hc.not_isDigit]

theorem IsForeign.mem_dropWhile_isDigit : c ∈ cs.dropWhile Char.isDigit := by
  induction cs with
  | nil => cases hmem
  | cons d cs ih =>
    rw [List.dropWhile_cons]
    split
    · rename_i hd
      have hne : c ≠ d := (Text.ne_of_class hd hc.not_isDigit).symm
      exact ih ((List.mem_cons.1 hmem).resolve_left hne)
    · exact hmem

theorem IsForeign.float?_eq_none : float? cs = none := by
  have hbody := hc.mem_signed hmem
  have hdrop := hc.mem_dropWhile_isDigit hbody
  have hinf : String.ofList ((Text.signed cs).2.map Char.toLower) ≠ "inf" :=
    hc.map_toLower_ne hbody (by decide)
  have hinfinity : String.ofList ((Text.signed cs).2.map Char.toLower) ≠ "infinity" :=
    hc.map_toLower_ne hbody (by decide)
  have hnan : String.ofList ((Text.signed cs).2.map Char.toLower) ≠ "nan" :=
    hc.map_toLower_ne hbody (by decide)
  unfold float?
  simp only [hinf, hinfinity, hnan, decide_false, Bool.or_self, Bool.false_eq_true, if_false,
    ite_eq_left_iff, Option.map_eq_none_iff]
  intro _
  split
  · rename_i hpoint
    rw [hpoint] at hdrop
    have hfraction := (List.mem_cons.1 hdrop).resolve_left hc.ne_point
    exact hc.exponent?_eq_none (hc.mem_dropWhile_isDigit hfraction)
  · exact hc.exponent?_eq_none hdrop

end Foreign

end Decimal

end Relayout
