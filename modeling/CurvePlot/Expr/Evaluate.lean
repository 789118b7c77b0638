import CurvePlot.Expr.Fault
import CurvePlot.Expr.Tree

/-!
# Strict evaluation

Over the doubles an expression has a value at a point only if every part of it is finite there.
`Expr.evaluate` computes the parts from left to right, operands before their operation, and stops
at the first one that is not finite. A quotient by zero and a call are reported as such, any other
part with its value. What it returns is finite, which `Expr.isFinite_of_evaluate` states.
-/

namespace CurvePlot

namespace Expr

/-- The value of a part that is no call, if it is finite. -/
def checked (x value : Float) (span : Span) : Except EvalError Float :=
  if value.isFinite then .ok value else .error ⟨.result value x, span⟩

/-- The finite value of the expression at `x`. -/
def evaluate (x : Float) : Expr Float → Except EvalError Float
  | number value span => checked x value span
  | var span => checked x x span
  | constant name span => checked x name.value span
  | binary operator left right span => do
    let l ← left.evaluate x
    let r ← right.evaluate x
    if operator == .div && r == 0 then .error ⟨.divisionByZero, span⟩
    else checked x (operator.apply l r) span
  | negation operand span => do
    let v ← operand.evaluate x
    checked x (-v) span
  | call function argument span => do
    let v ← argument.evaluate x
    if (function.apply v).isFinite then .ok (function.apply v)
    else .error ⟨.atArgument function v, span⟩

/-- Only finite values pass the check. -/
theorem checked_eq_ok {x value v : Float} {span : Span} (h : checked x value span = .ok v) :
    v = value ∧ v.isFinite = true := by
  unfold checked at h
  split at h
  · cases h; exact ⟨rfl, by assumption⟩
  · cases h

/-- An evaluated expression has a finite value. -/
theorem isFinite_of_evaluate {x v : Float} {e : Expr Float} (h : e.evaluate x = .ok v) :
    v.isFinite = true := by
  cases e with
  | number value span => exact (checked_eq_ok h).2
  | var span => exact (checked_eq_ok h).2
  | constant name span => exact (checked_eq_ok h).2
  | binary operator left right span =>
    simp only [evaluate, bind, Except.bind] at h
    split at h
    · cases h
    · split at h
      · cases h
      · split at h
        · cases h
        · exact (checked_eq_ok h).2
  | negation operand span =>
    simp only [evaluate, bind, Except.bind] at h
    split at h
    · cases h
    · exact (checked_eq_ok h).2
  | call function argument span =>
    simp only [evaluate, bind, Except.bind] at h
    split at h
    · cases h
    · split at h
      · cases h; assumption
      · cases h

end Expr

end CurvePlot
