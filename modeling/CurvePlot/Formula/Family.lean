import CurvePlot.Expr.Expression

/-!
# Families of curves

A formula describes a curve of one of eight families. All but the last have a closed form with two
or three parameters; the last is any expression. Each family has keys under which a formula may
name it, a domain it is drawn over when nothing else is said, and default parameters.
-/

namespace CurvePlot

/-- A domain: the points from `min` to `max` in steps of `step`. -/
structure Domain where
  /-- The first point. -/
  min : Float
  /-- The bound that no point exceeds. -/
  max : Float
  /-- The distance of two neighbouring points. -/
  step : Float
deriving DecidableEq

/-- The families of curves. -/
inductive Family where
  /-- Parabolas `a·x² + b·x + c`. -/
  | quadratic
  /-- Lines `m·x + b`. -/
  | linear
  /-- Sine waves. -/
  | sine
  /-- Cosine waves. -/
  | cosine
  /-- Roses in polar coordinates; their domain is in degrees. -/
  | polar
  /-- Exponentials `a·e^(b·x)`. -/
  | exponential
  /-- Logarithms `a·ln x + b`. -/
  | logarithmic
  /-- Anything else that an expression in `x` can say. -/
  | expression
deriving DecidableEq, Repr

namespace Family

/-- The keys that name a family, in lower case. -/
def keys : List (String × Family) :=
  [("quad", quadratic), ("quadratic", quadratic), ("linear", linear), ("sine", sine), ("sin", sine),
    ("cosine", cosine), ("cos", cosine), ("polar", polar), ("exponential", exponential),
    ("exp", exponential), ("log", logarithmic), ("ln", logarithmic), ("expr", expression),
    ("expression", expression), ("f", expression)]

/-- The family of a key in lower case. -/
def ofKey? (key : String) : Option Family :=
  keys.lookup key

/-- The family's name. -/
def name : Family → String
  | quadratic => "quadratic"
  | linear => "linear"
  | sine => "sine"
  | cosine => "cosine"
  | polar => "polar"
  | exponential => "exponential"
  | logarithmic => "logarithmic"
  | expression => "expression"

/-- How many values of a list are parameters of the curve. -/
def parameterCount : Family → Nat
  | quadratic | sine | cosine => 3
  | linear | polar | exponential | logarithmic => 2
  | expression => 0

/-- The domain of a formula that gives none. -/
def defaultDomain : Family → Domain
  | sine | cosine => ⟨-tau, tau, 0.1⟩
  | polar => ⟨0, 360, 1⟩
  | logarithmic => ⟨0, 10, 1⟩
  | expression => ⟨-10, 10, 0.1⟩
  | quadratic | linear | exponential => ⟨-10, 10, 1⟩

/-- By how much each bound is moved outward when both coincide. -/
def degeneratePad : Family → Float
  | sine | cosine => 1
  | _ => 10

/-- Whether the domain holds angles. -/
def isAngular (f : Family) : Bool :=
  f == polar

end Family

/-- The curve of a formula: a family with its parameters over the carrier `α`. -/
inductive Curve (α : Type) where
  /-- `a·x² + b·x + c` -/
  | quadratic (a b c : α)
  /-- `m·x + b` -/
  | linear (m b : α)
  /-- `amplitude·sin(frequency·x + phase)` -/
  | sine (amplitude frequency phase : α)
  /-- `amplitude·cos(frequency·x + phase)` -/
  | cosine (amplitude frequency phase : α)
  /-- The radius `scale·|sin(multiplier·θ)|` at the angle θ. -/
  | polar (scale multiplier : α)
  /-- `a·e^(b·x)` -/
  | exponential (a b : α)
  /-- `a·ln x + b` -/
  | logarithmic (a b : α)
  /-- The value of an expression at `x`. -/
  | expression (e : Expression)
deriving DecidableEq

namespace Curve

/-- The family that the curve belongs to. -/
def family {α : Type} : Curve α → Family
  | quadratic .. => .quadratic
  | linear .. => .linear
  | sine .. => .sine
  | cosine .. => .cosine
  | polar .. => .polar
  | exponential .. => .exponential
  | logarithmic .. => .logarithmic
  | expression _ => .expression

/-- The curve of a family with the parameters of a list; a missing one takes its default, and
surplus ones are passed over. An expression is no matter of parameters. -/
def ofValues? (family : Family) (values : List (Option Float)) : Option (Curve Float) :=
  let at_ (i : Nat) (default : Float) : Float := ((values[i]?).join).getD default
  match family with
  | .quadratic => some (quadratic (at_ 0 1) (at_ 1 0) (at_ 2 0))
  | .linear => some (linear (at_ 0 1) (at_ 1 0))
  | .sine => some (sine (at_ 0 1) (at_ 1 1) (at_ 2 0))
  | .cosine => some (cosine (at_ 0 1) (at_ 1 1) (at_ 2 0))
  | .polar => some (polar (at_ 0 1) (at_ 1 1))
  | .exponential => some (exponential (at_ 0 1) (at_ 1 1))
  | .logarithmic => some (logarithmic (at_ 0 1) (at_ 1 0))
  | .expression => none

/-- A curve built for a family belongs to it. -/
theorem family_of_ofValues? {family : Family} {values : List (Option Float)} {curve : Curve Float}
    (h : ofValues? family values = some curve) : curve.family = family := by
  cases family <;> simp only [ofValues?, Option.some.injEq, reduceCtorEq] at h <;>
    subst h <;> rfl

end Curve

end CurvePlot
