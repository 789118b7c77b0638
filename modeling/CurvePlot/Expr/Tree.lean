import CurvePlot.Expr.Name
import CurvePlot.Expr.Token

/-!
# Expression trees

A tree over a carrier of numbers: written numbers when it comes from a text, doubles when it is to
be sampled. Parentheses and plus signs leave no node, and bars are calls of the absolute value.
Every node knows which stretch of the source it was read from.

`Expr.value` is the plain value of a tree over any `Scalar`: it computes every node and never
fails.
-/

namespace CurvePlot

/-- The operators with two operands. -/
inductive Operator where
  /-- The sum. -/
  | add
  /-- The difference. -/
  | sub
  /-- The product. -/
  | mul
  /-- The quotient. -/
  | div
  /-- The power. -/
  | pow
deriving DecidableEq, Repr

/-- The operator's value. -/
def Operator.apply {α : Type} [Scalar α] : Operator → α → α → α
  | add, l, r => l + r
  | sub, l, r => l - r
  | mul, l, r => l * r
  | div, l, r => l / r
  | pow, l, r => Scalar.pow l r

/-- An expression whose numbers are of type `ν`. -/
inductive Expr (ν : Type) where
  /-- A number. -/
  | number (value : ν) (span : Span)
  /-- The variable. -/
  | var (span : Span)
  /-- A named constant. -/
  | constant (name : NamedConstant) (span : Span)
  /-- An operation on two operands. -/
  | binary (operator : Operator) (left right : Expr ν) (span : Span)
  /-- A change of sign. -/
  | negation (operand : Expr ν) (span : Span)
  /-- A call of a named function. -/
  | call (function : NamedFunction) (argument : Expr ν) (span : Span)
deriving DecidableEq, Repr

namespace Expr

variable {ν μ α : Type}

/-- Where the expression stands in its source. -/
def span : Expr ν → Span
  | number _ span | var span | constant _ span | binary _ _ _ span | negation _ span
  | call _ _ span => span

/-- The same tree over other numbers. -/
def map (f : ν → μ) : Expr ν → Expr μ
  | number value span => number (f value) span
  | var span => var span
  | constant name span => constant name span
  | binary operator left right span => binary operator (left.map f) (right.map f) span
  | negation operand span => negation (operand.map f) span
  | call function argument span => call function (argument.map f) span

/-- Whether the variable occurs. -/
def hasVariable : Expr ν → Bool
  | number _ _ | constant _ _ => false
  | var _ => true
  | binary _ left right _ => left.hasVariable || right.hasVariable
  | negation operand _ => operand.hasVariable
  | call _ argument _ => argument.hasVariable

/-- The nodes on the longest way from the root to a leaf, the leaf left out. -/
def height : Expr ν → Nat
  | number _ _ | var _ | constant _ _ => 0
  | binary _ left right _ => max left.height right.height + 1
  | negation operand _ => operand.height + 1
  | call _ argument _ => argument.height + 1

/-- The plain value of the tree where the variable is `x`. -/
def value [Scalar α] (x : α) : Expr α → α
  | number value _ => value
  | var _ => x
  | constant name _ => name.value
  | binary operator left right _ => operator.apply (left.value x) (right.value x)
  | negation operand _ => -operand.value x
  | call function argument _ => function.apply (argument.value x)

/-- Whether the variable occurs does not depend on the numbers. -/
@[simp] theorem hasVariable_map (f : ν → μ) (e : Expr ν) :
    (e.map f).hasVariable = e.hasVariable := by
  induction e <;> simp_all [map, hasVariable]

end Expr

end CurvePlot
