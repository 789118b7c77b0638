import CurvePlot.Output.Picture
import CurvePlot.Text.Hex

/-!
# Pictures as SVG documents

One element per line: the opening tag with the size, one element for each shape, and the closing
tag. Colours are written with hexadecimal digits in upper case.
-/

namespace CurvePlot.Svg

/-- A byte as two hexadecimal digits. -/
def hexByte (b : UInt8) : List Char :=
  [Text.upperHexDigit (b.toNat / 16), Text.upperHexDigit (b.toNat % 16)]

/-- A colour. -/
def colour (c : Colour) : String :=
  String.ofList ('#' :: (hexByte c.red ++ (hexByte c.green ++ hexByte c.blue)))

/-- A named property of an element, with a space before it. -/
def property (name value : String) : String :=
  " " ++ name ++ "=\"" ++ value ++ "\""

/-- An element without content, on a line of its own. -/
def element (name : String) (attributes : List (String × String)) : String :=
  "<" ++ name ++ String.join (attributes.map fun (key, value) => property key value) ++ "/>\n"

/-- A pixel coordinate. -/
def coordinate (c : Int32) : String :=
  toString c.toInt

/-- The points of a line, each followed by a space. -/
def points (pixels : List Pixel) : String :=
  String.join (pixels.map fun p => coordinate p.x ++ "," ++ coordinate p.y ++ " ")

/-- Place and size of a rectangle between two corners. -/
def rectangle (first second : Pixel) : List (String × String) :=
  [("x", coordinate first.x), ("y", coordinate first.y),
    ("width", coordinate (second.x - first.x)), ("height", coordinate (second.y - first.y))]

/-- The upper left and the lower right corner of a rectangle. -/
def corners (first second : Pixel) : Pixel × Pixel :=
  (⟨min first.x second.x, min first.y second.y⟩, ⟨max first.x second.x, max first.y second.y⟩)

/-- A line through the points. -/
def polyline (pixels : List Pixel) (opacity stroke width : String) : String :=
  element "polyline"
    [("fill", "none"), ("opacity", opacity), ("stroke", stroke), ("stroke-width", width),
      ("points", points pixels)]

/-- The element of a shape. -/
def shape : DrawnShape → String
  | .area first second c =>
    element "rect"
      (rectangle first second ++ [("opacity", "1"), ("fill", colour c), ("stroke", "none")])
  | .outline first second c =>
    let (upper, lower) := corners first second
    element "rect"
      (rectangle upper lower ++ [("opacity", "1"), ("fill", "none"), ("stroke", colour c)])
  | .gridLine pixels c => polyline pixels "0.3" (colour c) "1"
  | .curve pixels c => polyline pixels "1" (colour c) "2"
  | .dot centre c =>
    element "circle"
      [("cx", coordinate centre.x), ("cy", coordinate centre.y), ("r", "2"), ("opacity", "1"),
        ("fill", colour c), ("stroke", "none"), ("stroke-width", "1")]

/-- The opening tag. -/
def openingTag (width height : UInt32) : String :=
  let w := toString width.toNat
  let h := toString height.toNat
  "<svg" ++ property "width" w ++ property "height" h ++
    property "viewBox" ("0 0 " ++ w ++ " " ++ h) ++
    property "xmlns" "http://www.w3.org/2000/svg" ++ ">\n"

/-- The document of a picture. -/
def document (p : Picture) : String :=
  openingTag p.width p.height ++ String.join (p.shapes.map shape) ++ "</svg>\n"

end CurvePlot.Svg
