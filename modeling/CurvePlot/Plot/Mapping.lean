import CurvePlot.Number.Spelling
import CurvePlot.Plot.Axis
import CurvePlot.Plot.Sample

/-!
# Mapping samples into a drawing

All series of a drawing share one extent per axis. A sample that one of the axes cannot show is
left out; the others keep their coordinates and gain a place in the drawing, whose `y` grows
downward. The drawing keeps a margin free on every side, and there must be room left inside it.
-/

namespace CurvePlot

/-- The area of a drawing. -/
structure Canvas where
  /-- The width. -/
  width : Float
  /-- The height. -/
  height : Float
  /-- The width of the free border on every side. -/
  margin : Float
deriving DecidableEq

/-- The axes of a drawing. -/
inductive Axis where
  /-- The horizontal axis. -/
  | x
  /-- The vertical axis. -/
  | y
deriving DecidableEq, Repr

/-- The scales of both axes. -/
structure AxisScales where
  /-- The scale of the horizontal axis. -/
  x : AxisScale
  /-- The scale of the vertical axis. -/
  y : AxisScale
deriving DecidableEq, Repr

/-- Why series cannot be mapped. -/
inductive MappingError where
  /-- The drawing has no area, or a measure is not finite, or the margin is negative. -/
  | noArea (canvas : Canvas)
  /-- The margins leave no room. -/
  | noRoom (canvas : Canvas)
  /-- The extent of an axis has no finite positive length. -/
  | noSpan (axis : Axis) (extent : Extent)
deriving DecidableEq

namespace MappingError

/-- The name of the kind of error. -/
def kindName : MappingError → String
  | noArea _ | noRoom _ => "InvalidDrawRect"
  | noSpan _ _ => "DegenerateAndUnrecoverable"

/-- The text of the error. -/
def message : MappingError → String
  | noArea c =>
    Spelling.message.write c.width ++ "x" ++ Spelling.message.write c.height ++ " with margin " ++
      Spelling.message.write c.margin ++ " has no area"
  | noRoom c =>
    "margin " ++ Spelling.message.write c.margin ++ " leaves no room inside " ++
      Spelling.message.write c.width ++ "x" ++ Spelling.message.write c.height
  | noSpan axis e =>
    (match axis with | .x => "x" | .y => "y") ++ " extent [" ++ Spelling.message.write e.min ++
      ", " ++ Spelling.message.write e.max ++ "] has no finite span"

/-- The full text of the error: kind and cause. -/
def display (e : MappingError) : String :=
  e.kindName ++ ": " ++ e.message

end MappingError

namespace Canvas

/-- Whether all measures are finite, width and height positive, and the margin not negative. -/
def hasArea (c : Canvas) : Bool :=
  c.width.isFinite && c.height.isFinite && c.margin.isFinite && !(c.width ≤ 0) &&
    !(c.height ≤ 0) && !(c.margin < 0)

/-- Whether the margins leave room between them. -/
def hasRoom (c : Canvas) : Bool :=
  !(2 * c.margin ≥ Double.lesser c.width c.height)

/-- What is wrong with a drawing, if anything is. -/
def fault? (c : Canvas) : Option MappingError :=
  if !c.hasArea then some (.noArea c) else if !c.hasRoom then some (.noRoom c) else none

/-- The width between the margins. -/
def innerWidth (c : Canvas) : Float :=
  c.width - 2 * c.margin

/-- The height between the margins. -/
def innerHeight (c : Canvas) : Float :=
  c.height - 2 * c.margin

/-- The horizontal place of a value in plotting space. -/
def placeX (c : Canvas) (e : Extent) (value : Float) : Float :=
  c.margin + e.fraction value * c.innerWidth

/-- The vertical place of a value in plotting space. -/
def placeY (c : Canvas) (e : Extent) (value : Float) : Float :=
  c.height - c.margin - e.fraction value * c.innerHeight

end Canvas

/-- A sample and its place in the drawing. -/
structure MappedSample where
  /-- The horizontal coordinate. -/
  x : Float
  /-- The vertical coordinate. -/
  y : Float
  /-- The horizontal place. -/
  drawX : Float
  /-- The vertical place. -/
  drawY : Float
deriving DecidableEq

/-- The series of a drawing, mapped against shared extents. -/
structure Mapping where
  /-- The extent of the horizontal axis. -/
  xExtent : Extent
  /-- The extent of the vertical axis. -/
  yExtent : Extent
  /-- The mapped samples of each series, in order. -/
  series : List (List MappedSample)
deriving DecidableEq

/-- A sample that both axes can show, with its values in plotting space. -/
structure PlottedSample where
  /-- The sample. -/
  sample : Sample
  /-- The horizontal value in plotting space. -/
  x : Float
  /-- The vertical value in plotting space. -/
  y : Float

/-- The sample in plotting space, if both axes can show it. -/
def AxisScales.plot? (scales : AxisScales) (s : Sample) : Option PlottedSample :=
  match scales.x.toPlot? s.x, scales.y.toPlot? s.y with
  | some x, some y => some ⟨s, x, y⟩
  | _, _ => none

/-- The extent of an axis that shows the values. -/
def Extent.resolve (axis : Axis) (values : List Float) : Except MappingError Extent :=
  match Extent.ofValues? values with
  | none => .ok .unit
  | some extent =>
    if extent.widen.isUsable then .ok extent.widen else .error (.noSpan axis extent.widen)

namespace Canvas

/-- A plotted sample at its place. -/
def place (c : Canvas) (xExtent yExtent : Extent) (p : PlottedSample) : MappedSample :=
  ⟨p.sample.x, p.sample.y, c.placeX xExtent p.x, c.placeY yExtent p.y⟩

/-- The series mapped into a drawing that is known to be sound. -/
def mapSeries (c : Canvas) (scales : AxisScales) (series : List (List Sample)) :
    Except MappingError Mapping :=
  let plotted := series.map fun samples => samples.filterMap scales.plot?
  let all := plotted.flatten
  match Extent.resolve .x (all.map PlottedSample.x), Extent.resolve .y (all.map PlottedSample.y) with
  | .error e, _ => .error e
  | .ok _, .error e => .error e
  | .ok xExtent, .ok yExtent =>
    .ok ⟨xExtent, yExtent, plotted.map fun samples => samples.map (c.place xExtent yExtent)⟩

/-- The series mapped into the drawing. -/
def map (c : Canvas) (scales : AxisScales) (series : List (List Sample)) :
    Except MappingError Mapping :=
  match c.fault? with
  | some fault => .error fault
  | none => c.mapSeries scales series

/-- A mapping shows of every series the samples that both axes can show, against extents of all of
them. -/
theorem mapSeries_eq_ok {c : Canvas} {scales : AxisScales} {series : List (List Sample)} {m : Mapping}
    (h : c.mapSeries scales series = .ok m) :
    let plotted := series.map fun samples => samples.filterMap scales.plot?
    Extent.resolve .x (plotted.flatten.map PlottedSample.x) = .ok m.xExtent ∧
      Extent.resolve .y (plotted.flatten.map PlottedSample.y) = .ok m.yExtent ∧
        m.series = plotted.map fun samples => samples.map (c.place m.xExtent m.yExtent) := by
  simp only [mapSeries] at h
  split at h
  · cases h
  · cases h
  · next hx hy => cases h; exact ⟨hx, hy, rfl⟩

end Canvas

end CurvePlot
