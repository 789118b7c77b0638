import CurvePlot.Expr.Fault
import CurvePlot.Formula.Terms

/-!
# What can be wrong with a formula

A formula is refused for one of three kinds of reasons: no grammar fits it, its key names no
family, or the grammar that fits finds its body malformed. The refusal quotes the formula as it was
given.
-/

namespace CurvePlot

/-- Why a formula is refused. -/
inductive FormulaFault where
  /-- No grammar fits. -/
  | unrecognized
  /-- The word before the colon names no family. -/
  | unknownKey (key : String)
  /-- The key of an expression without an expression. -/
  | missingExpression
  /-- The expression is malformed. -/
  | expression (error : ReadError)
  /-- The right side of `y=` is no sum of terms. -/
  | terms (error : TermError)
  /-- A term in `y` where only `x` may stand. -/
  | unexpectedY
  /-- The equation has no solution for `y`. -/
  | equation (error : EquationError)
  /-- Other than one equals sign. -/
  | equalsSigns
  /-- A power of `e` that is not of the form `a*e^(bx)`. -/
  | exponentialForm
  /-- A logarithm that is neither `a*log(x)+b` nor `log(a,b)`. -/
  | logarithmForm
  /-- A factor or summand beside `log(a,b)`. -/
  | decoratedLogarithm
deriving DecidableEq, Repr

/-- The kinds of refusals. -/
inductive FormulaErrorKind where
  /-- No grammar fits. -/
  | unrecognizedFormat
  /-- The body is malformed. -/
  | malformedBody
  /-- The key names no family. -/
  | invalidFamilyKey
deriving DecidableEq, Repr

/-- A refused formula. -/
structure FormulaError where
  /-- Why it is refused. -/
  fault : FormulaFault
  /-- The formula as given. -/
  formula : String
deriving DecidableEq, Repr

/-- The kind of a fault. -/
def FormulaFault.kind : FormulaFault → FormulaErrorKind
  | unrecognized => .unrecognizedFormat
  | unknownKey _ => .invalidFamilyKey
  | _ => .malformedBody

/-- The text of a fault. -/
def FormulaFault.message : FormulaFault → String
  | unrecognized => "no known formula grammar matches"
  | unknownKey key => "unknown family key '" ++ key ++ "'"
  | missingExpression => "missing expression"
  | expression error => "expression: " ++ error.cause.message
  | terms error => error.message
  | unexpectedY => "unexpected y term"
  | equation error => error.message
  | equalsSigns => "expected exactly one '='"
  | exponentialForm => "expected <a>*e^(<b>x)"
  | logarithmForm => "expected <a>*log(x)+<b> or log(<a>,<b>)"
  | decoratedLogarithm => "outer coefficients are only allowed around log(x)"

/-- The name of a kind of refusal. -/
def FormulaErrorKind.name : FormulaErrorKind → String
  | unrecognizedFormat => "UnrecognizedFormat"
  | malformedBody => "SyntaxError"
  | invalidFamilyKey => "InvalidFamilyKey"

/-- The full text of a refusal: kind, formula and fault. -/
def FormulaError.display (e : FormulaError) : String :=
  e.fault.kind.name ++ " in '" ++ e.formula ++ "': " ++ e.fault.message

end CurvePlot
