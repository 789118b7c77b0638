import CurvePlot.Expr.Name
import CurvePlot.Expr.Token
import CurvePlot.Number.Spelling

/-!
# What can be wrong with an expression

A text that is no expression is refused with one cause and, except for the empty text, the place
where the reader stopped. A well-formed expression can still have no finite value at a point; then
the cause is the first part, in order of evaluation, whose value is not finite.
-/

namespace CurvePlot

/-- Why a text is no expression. -/
inductive Malformed where
  /-- A character that no token begins with. -/
  | unexpectedCharacter (c : Char)
  /-- A row of digits and points that is no number. -/
  | invalidNumber (text : String)
  /-- No token at all. -/
  | empty
  /-- A complete expression with something behind it. -/
  | trailing (found : Lexeme)
  /-- Operators, parentheses, bars and calls nested deeper than allowed. -/
  | nestedTooDeeply
  /-- Something else where an operand has to begin. -/
  | noOperand (found : Lexeme)
  /-- Something else where one certain lexeme has to stand. -/
  | mismatch (expected found : Lexeme)
  /-- A function name without an argument. -/
  | uncalled (name : String)
  /-- An argument that is not closed by a parenthesis. -/
  | argumentCount (function : NamedFunction)
  /-- A name without a meaning. -/
  | unknownName (name : String)
deriving DecidableEq, Repr

/-- A refusal of a text, with the place of its cause. -/
structure ReadError where
  /-- Why the text is refused. -/
  cause : Malformed
  /-- Where the reader stopped, if it read anything. -/
  span : Option Span
deriving DecidableEq, Repr

/-- Why an expression has no finite value at a point. -/
inductive NonFinite where
  /-- A function is not finite at its argument. -/
  | atArgument (function : NamedFunction) (argument : Float)
  /-- A quotient has the divisor zero. -/
  | divisionByZero
  /-- A part other than a call has this value, which is not finite, at this point. -/
  | result (value point : Float)

/-- A missing value, with the part of the expression that causes it. -/
structure EvalError where
  /-- Why there is no value. -/
  cause : NonFinite
  /-- The part whose value is not finite. -/
  span : Span

/-- A literal in messages about tokens: an integer keeps its `.0`, powers of ten stand from `1e16`
up and below `1e-4`. -/
def Lexeme.spelling : Spelling where
  positional := fun lead => -4 ≤ lead && lead ≤ 15
  pointZero := true
  plus := false
  tie := .up
  nan := "NaN"
  infinity := "inf"

/-- The lexeme's text in messages. -/
def Lexeme.describe : Lexeme → String
  | number literal => "Number(" ++ Lexeme.spelling.write literal.toFloat ++ ")"
  | name text => "Ident(\"" ++ text ++ "\")"
  | plus => "Plus"
  | minus => "Minus"
  | star => "Star"
  | slash => "Slash"
  | caret => "Caret"
  | opening => "LParen"
  | closing => "RParen"
  | bar => "Pipe"
  | finish => "Eof"

/-- The text of a refusal. -/
def Malformed.message : Malformed → String
  | unexpectedCharacter c => "unexpected character: '" ++ String.singleton c ++ "'"
  | invalidNumber text => "invalid number: " ++ text
  | empty => "empty expression"
  | trailing found => "unexpected " ++ found.describe ++ " after expression"
  | nestedTooDeeply => "expression nested too deeply"
  | noOperand found => "expected expression, found " ++ found.describe
  | mismatch expected found => "expected " ++ expected.describe ++ ", found " ++ found.describe
  | uncalled name => "function '" ++ name ++ "' must be called"
  | argumentCount function => "'" ++ function.name ++ "' takes exactly one argument"
  | unknownName name => "unknown identifier '" ++ name ++ "'"

/-- The text of a missing value. -/
def NonFinite.message : NonFinite → String
  | atArgument function argument =>
    function.name ++ "(" ++ Spelling.message.write argument ++ ") is not finite"
  | divisionByZero => "division by zero"
  | result value point =>
    "result " ++ Spelling.message.write value ++ " at x = " ++ Spelling.message.write point

end CurvePlot
