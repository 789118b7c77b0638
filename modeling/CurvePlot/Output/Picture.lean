import CurvePlot.Number.Word
import CurvePlot.Plot.Report

/-!
# Pictures of reports

A picture is a list of shapes on a background, in the order in which they are drawn. Pixels are
32-bit words: places are rounded, a half away from zero, and everything is clamped to the picture.
The sides and the margin are taken as such words bit by bit, and the grid and the frame are computed
from them; if a result on the way is no word, there is no picture (`PictureFault.overflow`).
A curve is drawn in segments. Where samples are missing there is a step in `x` of more than one and
a half times the smallest step; the curve is cut there, so that no line bridges a gap. Polar curves,
whose `x` goes back and forth, are drawn in one piece.
-/

namespace CurvePlot

/-- A place in a picture. -/
structure Pixel where
  /-- The column. -/
  x : Int32
  /-- The row. -/
  y : Int32
deriving DecidableEq

/-- A colour by its red, green and blue parts. -/
structure Colour where
  /-- The red part. -/
  red : UInt8
  /-- The green part. -/
  green : UInt8
  /-- The blue part. -/
  blue : UInt8
deriving DecidableEq

namespace Colour

/-- The background. -/
def background : Colour := ⟨30, 30, 46⟩

/-- The frame and the grid. -/
def axis : Colour := ⟨88, 91, 112⟩

/-- The colours of the series, in turn. -/
def palette : List Colour :=
  [⟨137, 180, 250⟩, ⟨166, 227, 161⟩, ⟨249, 226, 175⟩, ⟨243, 139, 168⟩, ⟨203, 166, 247⟩,
    ⟨148, 226, 213⟩, ⟨250, 179, 135⟩, ⟨180, 190, 254⟩]

/-- The colour of the series with this index; the palette repeats. -/
def ofIndex (i : Nat) : Colour :=
  palette[i % palette.length]?.getD background

end Colour

/-- A shape in a picture. -/
inductive DrawnShape where
  /-- A filled rectangle between two corners. -/
  | area (first second : Pixel) (colour : Colour)
  /-- The outline of a rectangle between two corners. -/
  | outline (first second : Pixel) (colour : Colour)
  /-- A faint line. -/
  | gridLine (points : List Pixel) (colour : Colour)
  /-- A line through two or more points. -/
  | curve (points : List Pixel) (colour : Colour)
  /-- A dot. -/
  | dot (centre : Pixel) (colour : Colour)
deriving DecidableEq

/-- A picture of a given size. -/
structure Picture where
  /-- The width in pixels. -/
  width : UInt32
  /-- The height in pixels. -/
  height : UInt32
  /-- The shapes in the order in which they are drawn. -/
  shapes : List DrawnShape
deriving DecidableEq

/-- Why a picture is not drawn. -/
inductive PictureFault where
  /-- There is no usable area. -/
  | unusable (error : MappingError)
  /-- A place in the grid or the frame, or the size of the pixels, is no word. -/
  | overflow
deriving DecidableEq

/-- What is drawn beneath the curves. -/
structure PictureStyle where
  /-- Whether lines divide the inside of the margins into tenths. -/
  grid : Bool
  /-- Whether the inside of the margins has an outline; a grid always has one. -/
  frame : Bool
deriving DecidableEq, Repr

namespace Pixel

/-- The pixel coordinate of a place: rounded, a half away from zero, and within the range of a
word. NaN has the coordinate zero. -/
def coordinate (place : Float) : Int32 :=
  if place.isNaN then 0
  else if place.isInf then (if place < 0 then Int32.minValue else Int32.maxValue)
  else Int32.ofIntClamp (Magnitude.roundFloat place)

/-- The pixel of a mapped sample. -/
def ofSample (s : MappedSample) : Pixel :=
  ⟨coordinate s.drawX, coordinate s.drawY⟩

/-- A coordinate clamped to a side; the lower end prevails. -/
def clampTo (side coordinate : Int32) : Int32 :=
  max (min coordinate side) 0

/-- The nearest pixel of a picture with these sides. -/
def clamp (width height : Int32) (p : Pixel) : Pixel :=
  ⟨clampTo width p.x, clampTo height p.y⟩

end Pixel

/-- The smallest positive step in `x` between neighbours, infinite when there is none. -/
def smallestStep (samples : List MappedSample) : Float :=
  let steps := (samples.zip (samples.drop 1)).map fun (first, second) => second.x - first.x
  (steps.filter fun step => step > 0).foldl Double.lesser Double.infinity

/-- The samples cut where samples are missing between two neighbours. -/
def segments (samples : List MappedSample) : List (List MappedSample) :=
  let limit := 1.5 * smallestStep samples
  samples.splitBy fun first second => !(second.x - first.x > limit)

namespace Picture

/-- The shape of a segment: nothing, a dot, or a line. -/
def segmentShape? (colour : Colour) : List Pixel → Option DrawnShape
  | [] => none
  | [pixel] => some (.dot pixel colour)
  | pixels => some (.curve pixels colour)

/-- The shapes of a curve. -/
def curveShapes (angular : Bool) (colour : Colour) (samples : List MappedSample) :
    List DrawnShape :=
  let pieces := if angular then [samples] else segments samples
  pieces.filterMap fun piece => segmentShape? colour (piece.map Pixel.ofSample)

/-- The number of parts that a grid divides each side into. -/
def divisions : Nat := 10

/-- The place of a grid line: this many tenths of the inside, from the margin on. -/
def gridPlace? (margin side : Int32) (i : Nat) : Option Int32 := do
  let margins ← Word.mul? 2 margin
  let inside ← Word.sub? side margins
  let product ← Word.mul? inside (Int32.ofNat i)
  Word.add? margin (product / Int32.ofNat divisions)

/-- The lines of a grid for so many tenths, first the vertical and then the horizontal one. -/
def gridLines? (width height margin : Int32) (i : Nat) : Option (List DrawnShape) := do
  let x ← gridPlace? margin width i
  let y ← gridPlace? margin height i
  let bottom ← Word.sub? height margin
  let right ← Word.sub? width margin
  return [.gridLine [⟨x, margin⟩, ⟨x, bottom⟩] .axis, .gridLine [⟨margin, y⟩, ⟨right, y⟩] .axis]

/-- The lines of a grid for each tenth. -/
def gridShapes? (width height margin : Int32) : Option (List DrawnShape) :=
  ((List.range (divisions - 1)).mapM fun i => gridLines? width height margin (i + 1)).map
    List.flatten

/-- The outline of the inside. -/
def frame? (width height margin : Int32) : Option DrawnShape := do
  let right ← Word.sub? width margin
  let bottom ← Word.sub? height margin
  return .outline ⟨margin, margin⟩ ⟨right, bottom⟩ .axis

/-- The shapes beneath the curves. -/
def styleShapes? (style : PictureStyle) (width height margin : Int32) : Option (List DrawnShape) :=
  let grid := if style.grid then gridShapes? width height margin else some []
  let frame :=
    if style.frame || style.grid then (frame? width height margin).map ([·]) else some []
  match grid, frame with
  | some grid, some frame => some (grid ++ frame)
  | _, _ => none

/-- The shapes of all series. Each series takes the next colour, also when it shows nothing. -/
def seriesShapes (groups : List FamilyGroup) : List DrawnShape :=
  let curves := groups.flatMap fun g => g.mapping.series.map fun samples =>
    (g.family.isAngular, samples)
  curves.zipIdx.flatMap fun ((angular, samples), i) => curveShapes angular (.ofIndex i) samples

/-- A shape with every point clamped to a picture with these sides. -/
def clampShape (width height : Int32) : DrawnShape → DrawnShape
  | .area first second colour =>
    .area (first.clamp width height) (second.clamp width height) colour
  | .outline first second colour =>
    .outline (first.clamp width height) (second.clamp width height) colour
  | .gridLine points colour => .gridLine (points.map (Pixel.clamp width height)) colour
  | .curve points colour => .curve (points.map (Pixel.clamp width height)) colour
  | .dot centre colour => .dot (centre.clamp width height) colour

/-- The picture of the groups, if the options describe a usable area and what is beneath the curves
has a place. -/
def ofGroups (o : DrawingOptions) (style : PictureStyle) (groups : List FamilyGroup) :
    Except PictureFault Picture :=
  match o.canvas.fault? with
  | some fault => .error (.unusable fault)
  | none =>
    let width := o.width.toInt32
    let height := o.height.toInt32
    match styleShapes? style width height o.margin.toInt32 with
    | none => .error .overflow
    | some beneath =>
      .ok ⟨o.width, o.height,
        .area ⟨0, 0⟩ ⟨width, height⟩ .background ::
          (beneath ++ seriesShapes groups).map (clampShape width height)⟩

/-- The bytes of the pixels, three for each. -/
def byteCount (p : Picture) : Nat :=
  3 * (p.width.toNat * p.height.toNat)

/-- The picture, if its pixels have a size that memory can be asked for. -/
def held (p : Picture) : Except PictureFault Picture :=
  if p.byteCount < Nat.pow 2 63 then .ok p else .error .overflow

end Picture

end CurvePlot
