import CurvePlot.Formula.Family
import CurvePlot.Number.Double

/-!
# Domains and their grids

A formula and the settings may each name parts of a range; what they leave out keeps its earlier
value (`Domain.overridden`). The result may be unusable: bounds that are not finite, coincide or
stand in the wrong order, a step that is not positive, more points than allowed.
`Domain.normalized` mends all of these, and `Domain.points` are the points of the grid. Points are
counted by a word of 64 bits, and a grid of more points has no count (`Domain.sampleCount?`).
-/

namespace CurvePlot

/-- A range of which any part may be left out. -/
structure PartialRange where
  /-- The first point. -/
  min : Option Float
  /-- The bound that no point exceeds. -/
  max : Option Float
  /-- The distance of two neighbouring points. -/
  step : Option Float
deriving DecidableEq

/-- The first three values of a list. -/
def PartialRange.ofValues (values : List (Option Float)) : PartialRange :=
  ⟨(values[0]?).join, (values[1]?).join, (values[2]?).join⟩

namespace Domain

/-- The domain with the parts that the range names replaced. -/
def overridden (d : Domain) (range : PartialRange) : Domain :=
  ⟨range.min.getD d.min, range.max.getD d.max, range.step.getD d.step⟩

/-- The tolerance in counting grid points, in steps: a quotient that rounding has pushed just below
an integer still counts that point. -/
def countTolerance : Float := 1e-9

/-- The part of a bound's size by which coinciding bounds are moved apart when the fixed pad is
lost to rounding. -/
def relativePad : Float := 1e-6

/-- Bounds in the right order. -/
def ordered (bounds : Float × Float) : Float × Float :=
  if bounds.1 > bounds.2 then (bounds.2, bounds.1) else bounds

/-- Coinciding bounds moved outward by `pad`. -/
def widenedBy (pad : Float) (bounds : Float × Float) : Float × Float :=
  if bounds.1 == bounds.2 then (bounds.1 - pad, bounds.2 + pad) else bounds

/-- Coinciding bounds moved outward in proportion to their size. -/
def widenedRelatively (bounds : Float × Float) : Float × Float :=
  widenedBy (Double.greater bounds.1.abs bounds.2.abs * relativePad) bounds

/-- Whether two bounds span a finite interval of positive length. -/
def isUsable (bounds : Float × Float) : Bool :=
  bounds.1 < bounds.2 && (bounds.2 - bounds.1).isFinite

/-- The bounds of the normalized domain. -/
def normalizedBounds (d : Domain) (family : Family) : Float × Float :=
  let standard := family.defaultDomain
  let given := (if d.min.isFinite then d.min else standard.min,
    if d.max.isFinite then d.max else standard.max)
  let mended := widenedRelatively (widenedBy family.degeneratePad (ordered given))
  if isUsable mended then mended else (standard.min, standard.max)

/-- The step, or the family's when it is not finite and positive. -/
def positiveStep (d : Domain) (family : Family) : Float :=
  if !d.step.isFinite || d.step ≤ 0 then family.defaultDomain.step else d.step

/-- The step widened so far that a grid over `span` has no more than `cap` points. -/
def cappedStep (span step : Float) (cap : Nat) : Float :=
  if span / step + 1 > cap.toFloat then span / (cap - 1).toFloat else step

/-- The nearest usable domain: finite bounds in order, a finite positive step, and at most
`maxSamples` points, but never fewer than two. -/
def normalized (d : Domain) (family : Family) (maxSamples : Nat) : Domain :=
  let bounds := d.normalizedBounds family
  ⟨bounds.1, bounds.2,
    cappedStep (bounds.2 - bounds.1) (d.positiveStep family) (Nat.max maxSamples 2)⟩

/-- The length in whole steps, with the tolerance, or the greatest word of 64 bits. -/
def stepCount (d : Domain) : UInt64 :=
  ((d.max - d.min) / d.step + countTolerance).toUInt64

/-- The number of grid points: zero without a positive step or with bounds in the wrong order, and
else one more than there are whole steps, if a word of 64 bits holds it. -/
def sampleCount? (d : Domain) : Option Nat :=
  if d.step.isNaN || d.step ≤ 0 || d.max < d.min then some 0
  else if d.stepCount.toNat + 1 < UInt64.size then some (d.stepCount.toNat + 1)
  else none

/-- The number of grid points that are there to be sampled. Where they cannot be counted there are
none. -/
def sampleCount (d : Domain) : Nat :=
  d.sampleCount?.getD 0

/-- The grid point of an index. Every point is computed from its index, so that errors do not add
up. -/
def point (d : Domain) (i : Nat) : Float :=
  d.min + i.toFloat * d.step

/-- The grid points in order. -/
def points (d : Domain) : List Float :=
  (List.range d.sampleCount).map d.point

/-- There are as many grid points as counted. -/
@[simp] theorem length_points (d : Domain) : d.points.length = d.sampleCount := by
  simp [points]

/-- A range without parts changes nothing. -/
@[simp] theorem overridden_empty (d : Domain) : d.overridden ⟨none, none, none⟩ = d := rfl

/-- A later range prevails where it names a part. -/
theorem overridden_overridden (d : Domain) (first second : PartialRange) :
    (d.overridden first).overridden second =
      d.overridden ⟨second.min.or first.min, second.max.or first.max,
        second.step.or first.step⟩ := by
  cases second with
  | mk min max step => cases min <;> cases max <;> cases step <;> rfl

end Domain

end CurvePlot
