/-
  Relayout/Proofs/Outcome.lean
  ============================
  **Computations that may fail.**

  A computation in two parts succeeds exactly if both parts do, whether it keeps a log
  (`Trace.bind_result_eq_ok_iff`) or not (`bind_eq_ok_iff`).
-/
import Relayout.Migration.Event

namespace Relayout

theorem bind_eq_ok_iff {ε α β : Type} {x : Except ε α} {f : α → Except ε β} {b : β} :
    (x >>= f) = .ok b ↔ ∃ a, x = .ok a ∧ f a = .ok b := by
  cases x <;> simp [bind, Except.bind]

theorem bind_eq_error_iff {ε α β : Type} {x : Except ε α} {f : α → Except ε β} {e : ε} :
    (x >>= f) = .error e ↔ x = .error e ∨ ∃ a, x = .ok a ∧ f a = .error e := by
  cases x <;> simp [bind, Except.bind]

theorem exists_eq_error_iff {ε α : Type} {x : Except ε α} :
    (∃ e, x = .error e) ↔ ∀ a, x ≠ .ok a := by
  cases x <;> simp

theorem map_eq_error_iff {ε α β : Type} {x : Except ε α} {f : α → β} {e : ε} :
    x.map f = .error e ↔ x = .error e := by
  cases x <;> simp [Except.map]

theorem exists_map_eq_ok_iff {ε α β : Type} {x : Except ε α} {f : α → β} :
    (∃ b, x.map f = .ok b) ↔ ∃ a, x = .ok a := by
  cases x <;> simp [Except.map]

/-- Results can be compared although errors cannot. -/
theorem eq_ok_of_toOption {ε α : Type} {x : Except ε α} {a : α} (h : x.toOption = some a) :
    x = .ok a := by
  cases x with
  | ok b => exact congrArg Except.ok (Option.some.inj h)
  | error e => cases h

namespace Trace

theorem after_result {α : Type} (events : List Event) (t : Trace α) :
    (t.after events).result = t.result := rfl

/-- A computation in two parts succeeds when both do. -/
theorem bind_result_eq_ok_iff {α β : Type} {t : Trace α} {f : α → Trace β} {b : β} :
    (t.bind f).result = .ok b ↔ ∃ a, t.result = .ok a ∧ (f a).result = .ok b := by
  unfold Trace.bind
  cases h : t.result with
  | ok a => simp [after_result]
  | error e => simp

/-- A computation in two parts fails where one of them does. -/
theorem bind_result_eq_error {α β : Type} {t : Trace α} {f : α → Trace β} {e : MigrationError}
    (h : (t.bind f).result = .error e) :
    t.result = .error e ∨ ∃ a, t.result = .ok a ∧ (f a).result = .error e := by
  unfold Trace.bind at h
  cases hresult : t.result with
  | ok a =>
    rw [hresult] at h
    exact Or.inr ⟨a, rfl, h⟩
  | error cause =>
    rw [hresult] at h
    cases h
    exact Or.inl rfl

theorem result_eq_ok_of_toOption {α : Type} {t : Trace α} {a : α}
    (h : t.result.toOption = some a) : t.result = .ok a := eq_ok_of_toOption h

/-- The error of a computation that fails. -/
def error? {α : Type} (t : Trace α) : Option MigrationError :=
  match t.result with
  | .ok _ => none
  | .error e => some e

theorem result_eq_error_iff {α : Type} {t : Trace α} {e : MigrationError} :
    t.result = .error e ↔ t.error? = some e := by
  unfold error?
  cases t.result <;> simp

end Trace

end Relayout
