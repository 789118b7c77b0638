import CurvePlot.Number.Double

/-!
# Axes

An axis turns values into plotting space, where a linear axis keeps them and a logarithmic axis
takes their decimal logarithm. Its extent is the interval from the least to the greatest value that
it shows. An interval of no length is widened, and an axis without values shows the unit interval.
-/

namespace CurvePlot

/-- How an axis turns values into plotting space. -/
inductive AxisScale where
  /-- Values as they are. -/
  | linear
  /-- Decimal logarithms. -/
  | log
deriving DecidableEq, Repr

/-- The value in plotting space, if the axis can show it. -/
def AxisScale.toPlot? (scale : AxisScale) (value : Float) : Option Float :=
  match scale with
  | linear => if value.isFinite then some value else none
  | log =>
    if value.isFinite && value > 0 && value.log10.isFinite then some value.log10 else none

/-- The interval of an axis in plotting space. -/
structure Extent where
  /-- The lower bound. -/
  min : Float
  /-- The upper bound. -/
  max : Float
  /-- Whether the bounds are other than the least and the greatest value. -/
  widened : Bool
deriving DecidableEq

namespace Extent

/-- The extent of an axis without values. -/
def unit : Extent := ⟨0, 1, true⟩

/-- The extent with one more value. -/
def enlarge (e : Extent) (value : Float) : Extent :=
  ⟨Double.lesser e.min value, Double.greater e.max value, false⟩

/-- The interval from the least to the greatest value; without a value there is none. -/
def ofValues? : List Float → Option Extent
  | [] => none
  | value :: rest => some (rest.foldl enlarge ⟨value, value, false⟩)

/-- The distance that coinciding bounds are moved outward: a tenth of the value's size, but not less
than one. -/
def pad (e : Extent) : Float :=
  Double.greater (e.min.abs * 0.1) 1

/-- The extent with coinciding bounds moved apart. -/
def widen (e : Extent) : Extent :=
  if e.min != e.max then e else ⟨e.min - e.pad, e.max + e.pad, true⟩

/-- The length of the interval. -/
def span (e : Extent) : Float :=
  e.max - e.min

/-- The place of a value in the interval: zero at its lower bound, one at its upper bound. -/
def fraction (e : Extent) (value : Float) : Float :=
  (value - e.min) / e.span

/-- Whether the interval has a finite positive length. -/
def isUsable (e : Extent) : Bool :=
  e.span.isFinite && !(e.span ≤ 0)

/-- Different bounds are kept. -/
theorem widen_of_ne {e : Extent} (h : (e.min != e.max) = true) : e.widen = e := by
  simp only [widen, h, if_true]

end Extent

end CurvePlot
