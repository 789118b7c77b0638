import CurvePlot.Output.Picture

/-!
# Pictures as pixels

The pixels of a picture stand in rows from the top, three bytes each. Shapes are painted in their
order; what falls outside the picture is left out. Lines are sampled at every step along their
longer side, and thickened by a square around each step.
-/

namespace CurvePlot

/-- The pixels of a picture. -/
structure Raster where
  /-- The number of pixels in a row. -/
  width : Nat
  /-- The number of rows. -/
  height : Nat
  /-- Red, green and blue parts, row by row. -/
  bytes : ByteArray

namespace Raster

/-- A raster of one colour. -/
def filled (width height : Nat) (c : Colour) : Raster where
  width := width
  height := height
  bytes := (width * height).fold
    (fun _ _ bytes => ((bytes.push c.red).push c.green).push c.blue)
    (ByteArray.emptyWithCapacity (3 * width * height))

/-- A part of a colour laid over another, in thousandths. -/
def blendPart (opacity : Nat) (front back : UInt8) : UInt8 :=
  UInt8.ofNat ((opacity * front.toNat + (1000 - opacity) * back.toNat + 500) / 1000)

/-- The raster with a colour laid over one byte of a pixel. -/
def blendAt (opacity : Nat) (bytes : ByteArray) (i : Nat) (part : UInt8) : ByteArray :=
  if h : i < bytes.size then bytes.set i (blendPart opacity part bytes[i]) h else bytes

/-- The raster with a colour laid over a pixel, if there is such a pixel. -/
def paint (r : Raster) (opacity : Nat) (c : Colour) (x y : Int) : Raster :=
  if 0 ≤ x && x < r.width && 0 ≤ y && y < r.height then
    let i := 3 * (y.toNat * r.width + x.toNat)
    let bytes := blendAt opacity r.bytes i c.red
    let bytes := blendAt opacity bytes (i + 1) c.green
    { r with bytes := blendAt opacity bytes (i + 2) c.blue }
  else r

/-- The raster with the pixels of a list painted. -/
def paintAll (r : Raster) (opacity : Nat) (c : Colour) (places : List (Int × Int)) : Raster :=
  places.foldl (fun r (x, y) => r.paint opacity c x y) r

/-- The integers from `low` to `high`. -/
def range (low high : Int) : List Int :=
  (List.range (high - low + 1).toNat).map fun (i : Nat) => low + i

/-- The places of a line from one pixel to another, both included. -/
def linePlaces (a b : Pixel) : List (Int × Int) :=
  let dx := b.x.toInt - a.x.toInt
  let dy := b.y.toInt - a.y.toInt
  let steps := max dx.natAbs dy.natAbs
  (List.range (steps + 1)).map fun (i : Nat) =>
    if steps == 0 then (a.x.toInt, a.y.toInt)
    else
      (a.x.toInt + (2 * dx * i + steps).fdiv (2 * steps),
        a.y.toInt + (2 * dy * i + steps).fdiv (2 * steps))

/-- A place and its neighbours to the right and below. -/
def thickened (places : List (Int × Int)) : List (Int × Int) :=
  places.flatMap fun (x, y) => [(x, y), (x + 1, y), (x, y + 1), (x + 1, y + 1)]

/-- The places of a line through all pixels. -/
def pathPlaces : List Pixel → List (Int × Int)
  | a :: b :: rest => linePlaces a b ++ pathPlaces (b :: rest)
  | _ => []

/-- The places of a dot. -/
def dotPlaces (centre : Pixel) : List (Int × Int) :=
  (range (-2) 2).flatMap fun dy => (range (-2) 2).filterMap fun dx =>
    if dx * dx + dy * dy ≤ 4 then some (centre.x.toInt + dx, centre.y.toInt + dy) else none

/-- The corners of a rectangle in turn, back to the first. -/
def outlinePath (first second : Pixel) : List Pixel :=
  [first, ⟨second.x, first.y⟩, second, ⟨first.x, second.y⟩, first]

/-- The raster with a shape painted. -/
def draw (r : Raster) : DrawnShape → Raster
  | .area first second c =>
    (range first.y.toInt (second.y.toInt - 1)).foldl
      (fun r y => (range first.x.toInt (second.x.toInt - 1)).foldl
        (fun r x => r.paint 1000 c x y) r) r
  | .outline first second c => r.paintAll 1000 c (pathPlaces (outlinePath first second))
  | .gridLine points c => r.paintAll 300 c (pathPlaces points)
  | .curve points c => r.paintAll 1000 c (thickened (pathPlaces points))
  | .dot centre c => r.paintAll 1000 c (dotPlaces centre)

/-- The pixels of a picture. -/
def ofPicture (p : Picture) : Raster :=
  p.shapes.foldl draw (filled p.width.toNat p.height.toNat .background)

end Raster

end CurvePlot
