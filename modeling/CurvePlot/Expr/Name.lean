import CurvePlot.Number.Scalar

/-!
# Names with a meaning

The functions and constants that an expression may name. A function has one proper name, under
which it appears in messages; `ln` is a second name of the logarithm.
-/

namespace CurvePlot

/-- The functions of one argument. -/
inductive NamedFunction where
  /-- The sine. -/
  | sin
  /-- The cosine. -/
  | cos
  /-- The tangent. -/
  | tan
  /-- The square root. -/
  | sqrt
  /-- The natural logarithm. -/
  | log
  /-- The exponential function. -/
  | exp
  /-- The absolute value. -/
  | abs
deriving DecidableEq, Repr

/-- The constants. -/
inductive NamedConstant where
  /-- The circle number. -/
  | pi
  /-- The base of the natural logarithm. -/
  | e
deriving DecidableEq, Repr

namespace NamedFunction

/-- The proper name. -/
def name : NamedFunction → String
  | sin => "sin"
  | cos => "cos"
  | tan => "tan"
  | sqrt => "sqrt"
  | log => "log"
  | exp => "exp"
  | abs => "abs"

/-- Every name of every function. -/
def names : List (String × NamedFunction) :=
  [("sin", sin), ("cos", cos), ("tan", tan), ("sqrt", sqrt), ("log", log), ("ln", log),
    ("exp", exp), ("abs", abs)]

/-- The function of that name. -/
def ofName? (name : String) : Option NamedFunction :=
  names.lookup name

/-- The function's value. -/
def apply {α : Type} [Scalar α] : NamedFunction → α → α
  | sin => Scalar.sin
  | cos => Scalar.cos
  | tan => Scalar.tan
  | sqrt => Scalar.sqrt
  | log => Scalar.log
  | exp => Scalar.exp
  | abs => Scalar.abs

/-- The proper name of a function names it. -/
theorem ofName?_name (f : NamedFunction) : ofName? f.name = some f := by
  cases f <;> decide

end NamedFunction

namespace NamedConstant

/-- The name. -/
def name : NamedConstant → String
  | pi => "pi"
  | e => "e"

/-- The constant of that name. -/
def ofName? (name : String) : Option NamedConstant :=
  [("pi", pi), ("e", e)].lookup name

/-- The constant's value. -/
def value {α : Type} [Scalar α] : NamedConstant → α
  | pi => Scalar.pi
  | e => Scalar.euler

/-- The name of a constant names it. -/
theorem ofName?_name (c : NamedConstant) : ofName? c.name = some c := by
  cases c <;> decide

end NamedConstant

end CurvePlot
