import CurvePlot.Settings.Basic
import CurvePlot.Toml.Number
import CurvePlot.Toml.Quoted

/-!
# Writing settings

The text of settings opens with comments on the keys. All keys follow, each on its line and the
tables behind an empty line; what is missing is left out.
-/

namespace CurvePlot

namespace Settings

/-- The comments at the head of the text. -/
def comments : List String :=
  ["# formplot configuration", "#",
    "# [parser] nan_aliases, thousands_separator, default_range, max_samples",
    "# [plot] draw_width, draw_height, margin, axis_scale_x/y (\"linear\" or \"log\")",
    "# cache_capacity = 0 disables sample memoization"]

/-- A key with its value. -/
def line (key value : String) : String :=
  key ++ " = " ++ value

/-- A key with its value, unless the value is missing. -/
def optionalLine {α : Type} (key : String) (write : α → String) : Option α → List String
  | some value => [line key (write value)]
  | none => []

/-- A string. -/
def quoted (text : String) : String :=
  String.ofList (Toml.Quoted.write text.toList)

/-- A row of strings. -/
def row (items : List String) : String :=
  "[" ++ String.intercalate ", " (items.map quoted) ++ "]"

/-- A truth value. -/
def word (value : Bool) : String :=
  if value then "true" else "false"

/-- The name of a scale. -/
def scaleName : AxisScale → String
  | .linear => "linear"
  | .log => "log"

/-- The table of the range, unless it is missing. -/
def rangeLines : Option PartialRange → List String
  | some range =>
    ["", "[parser.default_range]"] ++ optionalLine "min" Toml.writeFloat range.min ++
      optionalLine "max" Toml.writeFloat range.max ++
      optionalLine "step" Toml.writeFloat range.step
  | none => []

/-- The table of the reading rules. -/
def readingLines (rules : ReadingRules) : List String :=
  ["", "[parser]", line "nan_aliases" (row rules.missingWords)] ++
    optionalLine "thousands_separator" (fun c => quoted (String.singleton c))
      rules.groupSeparator ++
    [line "max_samples" (toString rules.maxSamples)] ++ rangeLines rules.defaultRange

/-- The table of the drawing options. -/
def drawingLines (o : DrawingOptions) : List String :=
  ["", "[plot]", line "draw_width" (toString o.width.toNat),
    line "draw_height" (toString o.height.toNat), line "margin" (toString o.margin.toNat),
    line "axis_scale_x" (quoted (scaleName o.xScale)),
    line "axis_scale_y" (quoted (scaleName o.yScale))]

/-- The lines of the text. -/
def lines (s : Settings) : List String :=
  comments ++ ["", line "grid" (word s.grid), line "cache_capacity" (toString s.cacheCapacity)] ++
    readingLines s.reading ++ drawingLines s.drawing

/-- The text of the settings. -/
def text (s : Settings) : String :=
  String.join (s.lines.map (· ++ "\n"))

end Settings

end CurvePlot
