/-
  Relayout/Proofs/Json/Reader.lean
  ================================
  **A value that was read repeats no key.**

  Of a key that a text repeats, the first place and the last value are kept, so whatever text is
  read, the value is well formed (`Json.wellFormed_read`).  The four readers of the grammar call
  one another with one round less, and what each gives back is well formed if what the
  others give back is (`Reader.sound`).
-/
import Mathlib.Logic.Basic
import Relayout.Json.Reader
import Relayout.Proofs.Json.Induction
import Relayout.Proofs.Outcome

namespace Relayout

namespace Json

namespace Reader

/-- What the readers give back within a number of rounds is well formed. -/
structure Sound (rounds : Nat) : Prop where
  value : ∀ depth cs v rest, value rounds depth cs = .ok (v, rest) → v.WellFormed
  elements : ∀ depth first cs xs rest, elements rounds depth first cs = .ok (xs, rest) →
    ∀ x ∈ xs, x.WellFormed
  members : ∀ depth first cs ms rest, members rounds depth first cs = .ok (ms, rest) →
    ∀ m ∈ ms, m.2.WellFormed
  member : ∀ depth cs ms rest, member rounds depth cs = .ok (ms, rest) →
    ∀ m ∈ ms, m.2.WellFormed

theorem wellFormed_word {v w : Json} (hv : v.WellFormed) {letters cs rest : List Char}
    (h : word v letters cs = .ok (w, rest)) : w.WellFormed := by
  induction letters generalizing cs with
  | nil =>
    cases h
    exact hv
  | cons letter letters ih =>
    cases cs with
    | nil => cases h
    | cons c cs =>
      rw [word] at h
      split at h
      · exact ih h
      · cases h

variable {rounds depth : Nat} {cs rest : List Char}

theorem sound_value (ih : Sound rounds) {v : Json}
    (h : value (rounds + 1) depth cs = .ok (v, rest)) : v.WellFormed := by
  rw [value] at h
  split at h
  · cases h
  -- the first character tells what kind of value it is
  rcases ite_eq_iff.1 h with ⟨-, hnull⟩ | ⟨-, h⟩
  · exact wellFormed_word (v := .null) trivial hnull
  rcases ite_eq_iff.1 h with ⟨-, htrue⟩ | ⟨-, h⟩
  · exact wellFormed_word (v := .bool true) trivial htrue
  rcases ite_eq_iff.1 h with ⟨-, hfalse⟩ | ⟨-, h⟩
  · exact wellFormed_word (v := .bool false) trivial hfalse
  rcases ite_eq_iff.1 h with ⟨-, hnegative⟩ | ⟨-, h⟩
  · obtain ⟨_, -, hnumber⟩ := bind_eq_ok_iff.1 hnegative
    cases hnumber
    trivial
  rcases ite_eq_iff.1 h with ⟨-, hdigit⟩ | ⟨-, h⟩
  · obtain ⟨_, -, hnumber⟩ := bind_eq_ok_iff.1 hdigit
    cases hnumber
    trivial
  rcases ite_eq_iff.1 h with ⟨-, hquote⟩ | ⟨-, h⟩
  · obtain ⟨_, -, hstring⟩ := bind_eq_ok_iff.1 hquote
    cases hstring
    trivial
  rcases ite_eq_iff.1 h with ⟨-, hbracket⟩ | ⟨-, h⟩
  · rcases ite_eq_iff.1 hbracket with ⟨-, hdeep⟩ | ⟨-, harray⟩
    · cases hdeep
    · obtain ⟨⟨xs, _⟩, helements, hread⟩ := bind_eq_ok_iff.1 harray
      cases hread
      exact wellFormed_arr_iff.2 (ih.elements _ _ _ _ _ helements)
  rcases ite_eq_iff.1 h with ⟨-, hbrace⟩ | ⟨-, hother⟩
  · rcases ite_eq_iff.1 hbrace with ⟨-, hdeep⟩ | ⟨-, hobject⟩
    · cases hdeep
    · obtain ⟨⟨ms, _⟩, hmembers, hread⟩ := bind_eq_ok_iff.1 hobject
      cases hread
      exact wellFormed_ofList (ih.members _ _ _ _ _ hmembers)
  · cases hother

/-- An element, and the elements after it. -/
theorem sound_element (ih : Sound rounds) {xs : List Json}
    (h : (do
      let (x, rest) ← value rounds depth cs
      let (xs, rest) ← elements rounds depth false rest
      return (x :: xs, rest)) = .ok (xs, rest)) : ∀ x ∈ xs, x.WellFormed := by
  obtain ⟨⟨x, _⟩, hvalue, h⟩ := bind_eq_ok_iff.1 h
  obtain ⟨⟨tail, _⟩, helements, h⟩ := bind_eq_ok_iff.1 h
  cases h
  rw [List.forall_mem_cons]
  exact ⟨ih.value _ _ _ _ hvalue, ih.elements _ _ _ _ _ helements⟩

theorem sound_elements (ih : Sound rounds) {first : Bool} {xs : List Json}
    (h : elements (rounds + 1) depth first cs = .ok (xs, rest)) : ∀ x ∈ xs, x.WellFormed := by
  rw [elements] at h
  split at h
  · cases h
  rcases ite_eq_iff.1 h with ⟨-, hend⟩ | ⟨-, h⟩
  · cases hend
    simp
  rcases ite_eq_iff.1 h with ⟨-, hfirst⟩ | ⟨-, h⟩
  · exact sound_element ih hfirst
  rcases ite_eq_iff.1 h with ⟨-, hcomma⟩ | ⟨-, hother⟩
  · split at hcomma
    · cases hcomma
    rcases ite_eq_iff.1 hcomma with ⟨-, htrailing⟩ | ⟨-, hnext⟩
    · cases htrailing
    · exact sound_element ih hnext
  · cases hother

theorem sound_members (ih : Sound rounds) {first : Bool} {ms : List (String × Json)}
    (h : members (rounds + 1) depth first cs = .ok (ms, rest)) : ∀ m ∈ ms, m.2.WellFormed := by
  rw [members] at h
  split at h
  · cases h
  rcases ite_eq_iff.1 h with ⟨-, hend⟩ | ⟨-, h⟩
  · cases hend
    simp
  rcases ite_eq_iff.1 h with ⟨-, hfirst⟩ | ⟨-, h⟩
  · exact ih.member _ _ _ _ hfirst
  rcases ite_eq_iff.1 h with ⟨-, hcomma⟩ | ⟨-, hother⟩
  · split at hcomma
    · cases hcomma
    rcases ite_eq_iff.1 hcomma with ⟨-, htrailing⟩ | ⟨-, hnext⟩
    · cases htrailing
    · exact ih.member _ _ _ _ hnext
  · cases hother

theorem sound_member (ih : Sound rounds) {ms : List (String × Json)}
    (h : member (rounds + 1) depth cs = .ok (ms, rest)) : ∀ m ∈ ms, m.2.WellFormed := by
  unfold member at h
  split at h
  · obtain ⟨⟨key, after⟩, -, h⟩ := bind_eq_ok_iff.1 h
    dsimp only at h
    split at h
    · cases h
    rcases ite_eq_iff.1 h with ⟨-, hcolon⟩ | ⟨-, hother⟩
    · obtain ⟨⟨v, _⟩, hvalue, h⟩ := bind_eq_ok_iff.1 hcolon
      obtain ⟨⟨tail, _⟩, hmembers, h⟩ := bind_eq_ok_iff.1 h
      cases h
      rw [List.forall_mem_cons]
      exact ⟨ih.value _ _ _ _ hvalue, ih.members _ _ _ _ _ hmembers⟩
    · cases hother
  · cases h

theorem sound (rounds : Nat) : Sound rounds := by
  induction rounds with
  | zero => constructor <;> simp [value, elements, members, member, failAhead]
  | succ rounds ih =>
    constructor
    · intro depth cs v rest h
      exact sound_value ih h
    · intro depth first cs xs rest h
      exact sound_elements ih h
    · intro depth first cs ms rest h
      exact sound_members ih h
    · intro depth cs ms rest h
      exact sound_member ih h

end Reader

/-- **What is read from a text repeats no key.** -/
theorem wellFormed_read {text : String} {v : Json} (h : read text = .ok v) : v.WellFormed := by
  unfold read at h
  cases hchars : readChars text.toList with
  | error fault =>
    rw [hchars] at h
    cases h
  | ok found =>
    rw [hchars] at h
    cases h
    unfold readChars at hchars
    obtain ⟨⟨w, rest⟩, hvalue, hrest⟩ := bind_eq_ok_iff.1 hchars
    have hw := (Reader.sound _).value _ _ _ _ hvalue
    dsimp only at hrest
    split at hrest
    · cases hrest
      exact hw
    · cases hrest

end Json

end Relayout
