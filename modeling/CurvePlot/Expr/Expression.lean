import CurvePlot.Expr.Evaluate
import CurvePlot.Expr.Precedence

/-!
# Expressions in one variable

An expression is a text in the variable `x` with the tree that it reads as. The tree keeps the
numbers as written; `Expression.doubles` is the tree that is sampled.
-/

namespace CurvePlot

/-- The name of the variable. -/
def variableName : String := "x"

/-- A well-formed expression. -/
structure Expression where
  /-- The text, without blanks at its ends. -/
  source : String
  /-- The tree of the text. -/
  tree : Expr Numeral
deriving DecidableEq, Repr

/-- Why an expression has no value: its text is malformed, or no value is finite. -/
inductive Expression.Failure where
  /-- The text is no expression. -/
  | malformed (error : ReadError)
  /-- There is no finite value at the point. -/
  | valueless (error : EvalError)

namespace Expression

/-- The expression that the text writes. -/
def ofText (source : List Char) : Except ReadError Expression :=
  (Expr.ofText variableName source).map fun tree => ⟨String.ofList (Text.trim source), tree⟩

/-- The tree over the doubles. -/
def doubles (e : Expression) : Expr Float :=
  e.tree.map Numeral.toFloat

/-- Whether the variable does not occur. -/
def isConstant (e : Expression) : Bool :=
  !e.tree.hasVariable

/-- The value at a point. -/
def evaluate (e : Expression) (x : Float) : Except EvalError Float :=
  e.doubles.evaluate x

/-- Read a text and evaluate it at one point. -/
def evaluateText (source : List Char) (x : Float) : Except Failure Float :=
  match ofText source with
  | .error e => .error (.malformed e)
  | .ok expression =>
    match expression.evaluate x with
    | .error e => .error (.valueless e)
    | .ok value => .ok value

/-- The source of an expression is its text without outer blanks. -/
theorem source_of_ofText {source : List Char} {e : Expression} (h : ofText source = .ok e) :
    e.source = String.ofList (Text.trim source) := by
  unfold ofText at h
  cases hr : Expr.ofText variableName source with
  | error _ => rw [hr] at h; cases h
  | ok tree => rw [hr] at h; cases h; rfl

end Expression

end CurvePlot
