import CurvePlot.Formula.Reading

/-!
# Sampling a curve

A curve is sampled at the points of a grid. A point whose coordinates are not both finite leaves no
sample, so that a series may be shorter than its grid and even empty. For all families but the polar
one the points are values of `x`; for that one they are degrees.
-/

namespace CurvePlot

/-- A point of a curve. -/
structure Sample where
  /-- The horizontal coordinate. -/
  x : Float
  /-- The vertical coordinate. -/
  y : Float
deriving DecidableEq

/-- The sample with these coordinates, if both are finite. -/
def Sample.finite? (x y : Float) : Option Sample :=
  if x.isFinite && y.isFinite then some ⟨x, y⟩ else none

/-- A sample that passes is the given one and has finite coordinates. -/
theorem Sample.finite?_eq_some {x y : Float} {s : Sample} (h : finite? x y = some s) :
    s = ⟨x, y⟩ ∧ x.isFinite = true ∧ y.isFinite = true := by
  unfold finite? at h
  split at h
  · next hf => cases h; exact ⟨rfl, Bool.and_eq_true_iff.1 hf⟩
  · cases h

/-- The radians of an angle in degrees. -/
def radians (degrees : Float) : Float :=
  degrees * 0.017453292519943295

namespace Curve

/-- The value of a closed form at `x`. The polar curve has none, as its points are angles, and
neither has an expression. -/
def closedForm? {α : Type} [Scalar α] (x : α) : Curve α → Option α
  | quadratic a b c => some (a * x * x + b * x + c)
  | linear m b => some (m * x + b)
  | sine amplitude frequency phase => some (amplitude * Scalar.sin (frequency * x + phase))
  | cosine amplitude frequency phase => some (amplitude * Scalar.cos (frequency * x + phase))
  | exponential a b => some (a * Scalar.exp (b * x))
  | logarithmic a b => some (a * Scalar.log x + b)
  | polar _ _ => none
  | expression _ => none

/-- The sample of a polar curve at an angle in degrees. -/
def polarSample? (scale multiplier degrees : Float) : Option Sample :=
  let angle := radians degrees
  let radius := scale * (multiplier * angle).sin.abs
  Sample.finite? (radius * angle.cos) (radius * angle.sin)

/-- The sample of an expression at `x`, if it has a value there. -/
def expressionSample? (tree : Expr Float) (x : Float) : Option Sample :=
  match tree.evaluate x with
  | .ok y => Sample.finite? x y
  | .error _ => none

/-- The sample at one point of the grid. A logarithm has samples at positive points alone. -/
def sample? (curve : Curve Float) (point : Float) : Option Sample :=
  match curve with
  | polar scale multiplier => polarSample? scale multiplier point
  | expression e => expressionSample? e.doubles point
  | logarithmic a b =>
    if point > 0 then Sample.finite? point (a * point.log + b) else none
  | curve => (curve.closedForm? point).bind (Sample.finite? point)

/-- The samples at the points of a grid, in order. The tree of an expression is made once for all
points. -/
def samples (curve : Curve Float) (points : List Float) : List Sample :=
  match curve with
  | expression e =>
    let tree := e.doubles
    points.filterMap fun x => expressionSample? tree x
  | curve => points.filterMap curve.sample?

/-- Each point leaves its own sample or none. -/
theorem samples_eq (curve : Curve Float) (points : List Float) :
    curve.samples points = points.filterMap curve.sample? := by
  cases curve <;> rfl

end Curve

/-- The samples of one formula. -/
structure Series where
  /-- The formula, as a name for the series. -/
  label : String
  /-- The family of the curve. -/
  family : Family
  /-- The samples in the order of the grid. -/
  samples : List Sample
deriving DecidableEq

/-- The series of a plot. -/
def Plot.series (p : Plot) : Series :=
  ⟨p.source, p.family, p.curve.samples p.domain.points⟩

/-- The series of a formula, or the refusal. -/
def ReadingRules.sample (rules : ReadingRules) (formula : String) : Except FormulaError Series :=
  (rules.read formula).map Plot.series

/-- A plot has at most as many samples as its grid has points. -/
theorem Plot.length_samples_le (p : Plot) : p.series.samples.length ≤ p.domain.sampleCount := by
  simp only [Plot.series, Curve.samples_eq]
  exact Nat.le_trans (List.length_filterMap_le _ _) (by simp)

end CurvePlot
