import CurvePlot.Number.Literal

/-!
# Arithmetic that formulas are read in

A formula denotes a function over any carrier with the operations collected here. The program runs
over the doubles; the real numbers are a second carrier, over which two formulas can be compared
without regard to rounding. No law is asked of the operations: over the doubles few hold.
-/

namespace CurvePlot

/-- The operations a formula may use. -/
class Scalar (α : Type) extends Add α, Sub α, Mul α, Div α, Neg α where
  /-- The value of a written number. -/
  ofNumeral : Numeral → α
  /-- The constant π. -/
  pi : α
  /-- The base of the natural logarithm. -/
  euler : α
  /-- The power of the first operand to the second. -/
  pow : α → α → α
  /-- The sine of an angle in radians. -/
  sin : α → α
  /-- The cosine of an angle in radians. -/
  cos : α → α
  /-- The tangent of an angle in radians. -/
  tan : α → α
  /-- The square root. -/
  sqrt : α → α
  /-- The natural logarithm. -/
  log : α → α
  /-- The exponential function. -/
  exp : α → α
  /-- The absolute value. -/
  abs : α → α

namespace Scalar

variable {α : Type} [Scalar α]

/-- The number zero. -/
def zero : α := ofNumeral ⟨0, 0⟩

/-- The number one. -/
def one : α := ofNumeral ⟨1, 0⟩

end Scalar

/-- The doubles, with one rounding after each operation. -/
instance : Scalar Float where
  ofNumeral := Numeral.toFloat
  pi := 3.141592653589793
  euler := 2.718281828459045
  pow := Float.pow
  sin := Float.sin
  cos := Float.cos
  tan := Float.tan
  sqrt := Float.sqrt
  log := Float.log
  exp := Float.exp
  abs := Float.abs

/-- The circle constant of the doubles, twice π. -/
def tau : Float := 6.283185307179586

end CurvePlot
