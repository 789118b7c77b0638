import CurvePlot.Formula.Values
import CurvePlot.Plot.Report

/-!
# Settings

What a run goes by when nothing else is said on its command line: how formulas are read, how large
the drawing is, whether it has a grid, and how many outcomes are kept.
-/

namespace CurvePlot

/-- The settings of a run. -/
structure Settings where
  /-- Whether pictures have a grid. -/
  grid : Bool
  /-- How many outcomes of formulas are kept; zero keeps none. -/
  cacheCapacity : Nat
  /-- How formulas are read. -/
  reading : ReadingRules
  /-- Size and scales of the drawing. -/
  drawing : DrawingOptions
deriving DecidableEq

namespace Settings

/-- The settings when nothing else is said. -/
def standard : Settings where
  grid := false
  cacheCapacity := 256
  reading := .standard
  drawing := .standard

end Settings

/-- Whether two values that may be missing are equal as numbers: the two zeros are, NaN equals
nothing. -/
def sameNumber : Option Float → Option Float → Bool
  | some a, some b => a == b
  | none, none => true
  | _, _ => false

/-- Whether two ranges are equal as numbers. -/
def PartialRange.sameNumbers (a b : PartialRange) : Bool :=
  sameNumber a.min b.min && sameNumber a.max b.max && sameNumber a.step b.step

/-- Whether two settings are equal, their ranges being compared as numbers. -/
def Settings.sameNumbers (a b : Settings) : Bool :=
  a.grid == b.grid && a.cacheCapacity == b.cacheCapacity && a.drawing == b.drawing &&
    a.reading.missingWords == b.reading.missingWords &&
    a.reading.groupSeparator == b.reading.groupSeparator &&
    a.reading.maxSamples == b.reading.maxSamples &&
    (match a.reading.defaultRange, b.reading.defaultRange with
      | some first, some second => first.sameNumbers second
      | none, none => true
      | _, _ => false)

end CurvePlot
