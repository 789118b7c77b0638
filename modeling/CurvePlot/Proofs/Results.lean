import Mathlib.Data.List.Forall2

/-!
# Results that may be refusals

Readers and reports return a result or a refusal. What was computed in steps is taken apart here, once
for all of them: a result of steps has one of every step (`bind_eq_ok`, `map_eq_ok`), and a refusal is
that of the value or of its mapped cause (`map_eq_error_iff`, `mapError_eq_error_iff`).
-/

namespace CurvePlot

variable {ε ε' α β : Type} {x : Except ε α}

/-- A result of two steps has one of the first, from which the second has it. -/
theorem bind_eq_ok {f : α → Except ε β} {b : β} (h : x >>= f = .ok b) :
    ∃ a, x = .ok a ∧ f a = .ok b := by
  cases x with
  | error e => cases h
  | ok a => exact ⟨a, rfl, h⟩

/-- A mapped result is one of a result. -/
theorem map_eq_ok {f : α → β} {b : β} (h : x.map f = .ok b) : ∃ a, x = .ok a ∧ f a = b := by
  cases x with
  | error e => cases h
  | ok a => exact ⟨a, rfl, Except.ok.inj h⟩

/-- A mapped value is refused when the value is. -/
theorem map_eq_error_iff {f : α → β} {e : ε} : x.map f = .error e ↔ x = .error e := by
  cases x <;> simp [Except.map]

/-- A mapped refusal is one of its mapped cause. -/
theorem mapError_eq_error_iff {f : ε → ε'} {e : ε'} :
    x.mapError f = .error e ↔ ∃ cause, e = f cause ∧ x = .error cause := by
  cases x <;> simp [Except.mapError, eq_comm]

/-- A result that is there is one. -/
theorem eq_ok_of_toOption {a : α} (h : x.toOption = some a) : x = .ok a := by
  cases x with
  | error e => cases h
  | ok b => cases h; rfl

/-- Results that are all there are those of the elements in order. -/
theorem forall₂_of_mapM_eq_ok {f : α → Except ε β} {xs : List α} {ys : List β}
    (h : xs.mapM f = .ok ys) : List.Forall₂ (fun x y => f x = .ok y) xs ys := by
  induction xs generalizing ys with
  | nil => cases h; exact .nil
  | cons x xs ih =>
    rw [List.mapM_cons] at h
    obtain ⟨y, hx, h⟩ := bind_eq_ok h
    obtain ⟨rest, hxs, h⟩ := bind_eq_ok h
    cases h
    exact .cons hx (ih hxs)

end CurvePlot
