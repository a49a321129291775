/-
  Relayout/Proofs/Json/Index.lean
  ===============================
  **An element has exactly one index.**

  A name stands for an index only if it is the decimal numeral of it, without leading
  zeros.  So different names never reach one element (`index?_eq_some_iff`), and a place
  that differs from another in an index is a different place.
-/
import Relayout.Json.Pointer

namespace Relayout.Pointer

/-! ### Digits -/

/-- A digit is the numeral of its own value. -/
theorem toDigits_digit {c : Char} (hc : c.isDigit = true) :
    c.toNat - 48 < 10 ∧ Nat.toDigits 10 (c.toNat - 48) = [c] := by
  have hrange : 48 ≤ c.toNat ∧ c.toNat ≤ 57 := Char.isDigit_iff_toNat.1 hc
  have hlt : c.toNat - 48 < 10 := by omega
  refine ⟨hlt, ?_⟩
  rw [Nat.toDigits_of_lt_base hlt, List.cons.injEq]
  refine ⟨Char.toNat_inj.1 ?_, rfl⟩
  rw [Nat.toNat_digitChar_of_lt_ten hlt]
  omega

/-- Reading further digits into a positive number writes them after its numeral. -/
theorem toDigits_append_digits (cs : List Char) {n : Nat} (hn : 0 < n)
    (hcs : ∀ c ∈ cs, c.isDigit = true) :
    Nat.toDigits 10 n ++ cs
      = Nat.toDigits 10 (cs.foldl (fun n c => 10 * n + (c.toNat - 48)) n) := by
  induction cs generalizing n with
  | nil => simp
  | cons c cs ih =>
    obtain ⟨hlt, hdigit⟩ := toDigits_digit (hcs c List.mem_cons_self)
    have hone := Nat.toDigits_append_toDigits (b := 10) (by decide) hn hlt
    have hrest := ih (n := 10 * n + (c.toNat - 48)) (by omega)
      (fun d hd => hcs d (List.mem_cons_of_mem c hd))
    calc
      Nat.toDigits 10 n ++ c :: cs = (Nat.toDigits 10 n ++ [c]) ++ cs := by simp
      _ = Nat.toDigits 10 (10 * n + (c.toNat - 48)) ++ cs := by rw [← hdigit, hone]
      _ = _ := hrest

/-- The numeral of a positive number does not begin with a zero. -/
theorem toDigits_ne_zero_cons {n : Nat} (hn : 0 < n) (cs : List Char) :
    Nat.toDigits 10 n ≠ '0' :: cs := by
  induction n using Nat.strongRecOn generalizing cs with
  | _ n ih =>
    intro hzero
    by_cases hlt : n < 10
    · rw [Nat.toDigits_of_lt_base hlt, List.cons.injEq, Nat.digitChar_eq_zero] at hzero
      omega
    · rw [Nat.toDigits_of_base_le (by decide) (Nat.not_lt.1 hlt)] at hzero
      cases hdigits : Nat.toDigits 10 (n / 10) with
      | nil => exact Nat.toDigits_ne_nil hdigits
      | cons c rest =>
        rw [hdigits, List.cons_append, List.cons.injEq] at hzero
        obtain ⟨rfl, -⟩ := hzero
        exact ih (n / 10) (by omega) (by omega) rest hdigits

/-! ### Indices -/

/-- The numeral of a number stands for it. -/
theorem index?_toString (i : Nat) : index? (toString i) = some i := by
  have hlist : (toString i).toList = Nat.toDigits 10 i := Nat.toList_repr
  have hvalue : Nat.ofDigitChars 10 (Nat.toDigits 10 i) 0 = i := Nat.ofDigitChars_ten_toDigits
  have hdigits : ∀ c ∈ Nat.toDigits 10 i, c.isDigit = true := fun c hc =>
    Nat.isDigit_of_mem_toDigits (by decide) (by decide) hc
  unfold index?
  rw [hlist]
  split
  · rename_i hnil
    exact absurd hnil Nat.toDigits_ne_nil
  · rename_i hzero
    rw [hzero] at hvalue
    exact congrArg some hvalue
  · rename_i rest hne hzero
    by_cases hi : 0 < i
    · exact absurd hzero (toDigits_ne_zero_cons hi rest)
    · obtain rfl : i = 0 := by omega
      exact absurd (by simpa using hzero.symm : rest = []) hne
  · rw [if_pos (List.all_eq_true.2 hdigits)]
    exact congrArg some hvalue

/-- A name that stands for an index is its numeral. -/
theorem eq_toString_of_index? {name : String} {i : Nat} (h : index? name = some i) :
    name = toString i := by
  have hlist : name.toList = Nat.toDigits 10 i := by
    unfold index? at h
    split at h
    · cases h
    · rename_i hzero
      cases h
      exact hzero
    · cases h
    · rename_i cs hne hzero hlead
      split at h
      · rename_i hall
        cases h
        cases hcs : name.toList with
        | nil => exact absurd hcs hne
        | cons c rest =>
          rw [hcs] at hall
          have hdigit : ∀ d ∈ c :: rest, d.isDigit = true := List.all_eq_true.1 hall
          obtain ⟨-, hc⟩ := toDigits_digit (hdigit c List.mem_cons_self)
          have hpos : 0 < c.toNat - 48 := by
            rcases Nat.eq_zero_or_pos (c.toNat - 48) with hz | hp
            · rw [hz] at hc
              have hc0 : '0' = c := by simpa using hc
              subst hc0
              exact absurd hcs (hlead rest)
            · exact hp
          have happ := toDigits_append_digits rest hpos
            (fun d hd => hdigit d (List.mem_cons_of_mem c hd))
          rw [hc] at happ
          simpa using happ
      · cases h
  rw [← String.toList_inj, hlist]
  exact Nat.toList_repr.symm

theorem index?_eq_some_iff {name : String} {i : Nat} :
    index? name = some i ↔ name = toString i := by
  constructor
  · exact eq_toString_of_index?
  · rintro rfl
    exact index?_toString i

end Relayout.Pointer
