import CurvePlot.Plot.Sample
import CurvePlot.Proofs.Number.ReadBack
import Mathlib.Analysis.SpecialFunctions.Log.Basic
import Mathlib.Analysis.SpecialFunctions.Pow.Real
import Mathlib.Analysis.SpecialFunctions.Trigonometric.Basic

/-!
# The functions that curves stand for

Over the real numbers a curve is a partial function. A quotient by zero, the power of a negative
number to a fraction, the logarithm of a number that is not positive have no value, and neither has
anything that they are parts of (`Expr.real?`). The parameters of a curve are finite doubles and
count as the rational numbers that they are (`Double.toReal`). The polar curve has no value at an
`x`, as its points are angles.
-/

namespace CurvePlot

/-- The real numbers, without rounding. -/
noncomputable instance : Scalar ℝ where
  ofNumeral n := n.value
  pi := Real.pi
  euler := Real.exp 1
  pow a b := a ^ b
  sin := Real.sin
  cos := Real.cos
  tan := Real.tan
  sqrt := Real.sqrt
  log := Real.log
  exp := Real.exp
  abs v := |v|

/-- The operands that an operator has a value for. -/
def Operator.DefinedAt (a b : ℝ) : Operator → Prop
  | add | sub | mul => True
  | div => b ≠ 0
  | pow => 0 < a ∨ a = 0 ∧ 0 ≤ b ∨ a < 0 ∧ ∃ n : ℤ, b = n

/-- The arguments that a function has a value for. -/
def NamedFunction.DefinedAt (v : ℝ) : NamedFunction → Prop
  | sin | cos | exp | abs => True
  | tan => Real.cos v ≠ 0
  | sqrt => 0 ≤ v
  | log => 0 < v

namespace Expr

open Classical in
/-- The real value of the expression at `x`, where every part of it has one. -/
noncomputable def real? (x : ℝ) : Expr Numeral → Option ℝ
  | number value _ => some (Scalar.ofNumeral value)
  | var _ => some x
  | constant name _ => some name.value
  | binary operator left right _ => do
    let a ← left.real? x
    let b ← right.real? x
    if operator.DefinedAt a b then some (operator.apply a b) else none
  | negation operand _ => do
    let v ← operand.real? x
    some (-v)
  | call function argument _ => do
    let v ← argument.real? x
    if function.DefinedAt v then some (function.apply v) else none

/-- Where there is a real value, it is the plain one. -/
theorem value_of_real? {x v : ℝ} {e : Expr Numeral} (h : e.real? x = some v) :
    (e.map Scalar.ofNumeral).value x = v := by
  induction e generalizing v with
  | number value _ => exact Option.some.inj h
  | var _ => exact Option.some.inj h
  | constant name _ => exact Option.some.inj h
  | binary operator left right _ ihl ihr =>
    obtain ⟨a, ha, h⟩ := Option.bind_eq_some_iff.mp h
    obtain ⟨b, hb, h⟩ := Option.bind_eq_some_iff.mp h
    split at h
    · rw [map, value, ihl ha, ihr hb]
      exact Option.some.inj h
    · cases h
  | negation operand _ ih =>
    obtain ⟨a, ha, h⟩ := Option.bind_eq_some_iff.mp h
    rw [map, value, ih ha]
    exact Option.some.inj h
  | call function argument _ ih =>
    obtain ⟨a, ha, h⟩ := Option.bind_eq_some_iff.mp h
    split at h
    · rw [map, value, ih ha]
      exact Option.some.inj h
    · cases h

end Expr

/-- The number that a finite double is. -/
noncomputable def Double.toReal (x : Float) : ℝ :=
  if Magnitude.isNegative x then -(Magnitude.ofFloat x).value else (Magnitude.ofFloat x).value

/-- The double one is one. -/
@[simp] theorem Double.toReal_one : toReal 1 = 1 := by
  have hsign : Magnitude.isNegative 1 = false := rfl
  have hvalue : Magnitude.ofFloat 1 = ⟨2 ^ 52, -52, true⟩ := rfl
  rw [toReal, hsign, hvalue]
  norm_num [Magnitude.value]

/-- The double zero is zero. -/
@[simp] theorem Double.toReal_zero : toReal 0 = 0 := by
  have hvalue : Magnitude.ofFloat 0 = ⟨0, -1074, false⟩ := rfl
  simp [toReal, hvalue, Magnitude.value]

namespace Curve

/-- The same curve with other parameters. -/
def map {α β : Type} (f : α → β) : Curve α → Curve β
  | quadratic a b c => quadratic (f a) (f b) (f c)
  | linear m b => linear (f m) (f b)
  | sine amplitude frequency phase => sine (f amplitude) (f frequency) (f phase)
  | cosine amplitude frequency phase => cosine (f amplitude) (f frequency) (f phase)
  | polar scale multiplier => polar (f scale) (f multiplier)
  | exponential a b => exponential (f a) (f b)
  | logarithmic a b => logarithmic (f a) (f b)
  | expression e => expression e

open Classical in
/-- The real value of a curve at `x`, where it has one: for a logarithm at positive points alone. -/
noncomputable def real? (x : ℝ) : Curve Float → Option ℝ
  | expression e => e.tree.real? x
  | logarithmic a b =>
    if 0 < x then (map Double.toReal (logarithmic a b)).closedForm? x else none
  | curve => (map Double.toReal curve).closedForm? x

/-- A logarithm without offset at a positive point. -/
theorem real?_logarithmic (x : ℝ) (a : Float) (v : ℝ) :
    (logarithmic a 0).real? x = some v ↔ 0 < x ∧ Double.toReal a * Real.log x = v := by
  have hclosed : (map Double.toReal (logarithmic a 0)).closedForm? x =
      some (Double.toReal a * Real.log x + Double.toReal 0) := rfl
  rw [real?, hclosed, Double.toReal_zero, add_zero]
  split
  · next hx => simp [hx]
  · next hx => simp [hx]

end Curve

end CurvePlot
