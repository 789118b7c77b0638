import CurvePlot.Settings.Basic
import CurvePlot.Toml.Document

/-!
# Reading settings

Settings are read from a TOML document. A key that is missing keeps its standard value and a key
that is not known is ignored, but one wrong value makes all settings standard, as does a text that
is no document.
-/

namespace CurvePlot

open CurvePlot.Toml

namespace Settings

/-- The value of a key, standard when the key is missing, none when it is wrong. -/
def entry? {α : Type} (entries : List (String × TomlValue)) (key : String) (default : α)
    (read : TomlValue → Option α) : Option α :=
  match entries.lookup key with
  | none => some default
  | some value => read value

/-- A count: an integer that is not negative. -/
def count? (value : TomlValue) : Option Nat :=
  match value.asInteger? with
  | some n => if 0 ≤ n then some n.toNat else none
  | none => none

/-- A length in pixels: a count below `2 ^ 32`. -/
def length? (value : TomlValue) : Option UInt32 :=
  match count? value with
  | some n => if n < UInt32.size then some (UInt32.ofNat n) else none
  | none => none

/-- A list of strings. -/
def strings? (value : TomlValue) : Option (List String) :=
  match value.asArray? with
  | some items => items.mapM TomlValue.asString?
  | none => none

/-- A string of one character. -/
def character? (value : TomlValue) : Option Char :=
  match value.asString?.map String.toList with
  | some [c] => some c
  | _ => none

/-- The scale with a name. -/
def namedScale? (name : String) : Option AxisScale :=
  if name == "linear" then some .linear
  else if name == "log" then some .log
  else none

/-- A scale: its name, or a table whose only key is its name, with nothing inside. -/
def scale? : TomlValue → Option AxisScale
  | .string name => namedScale? name
  | .table [(name, .table [])] => namedScale? name
  | .table [(name, .array [])] => namedScale? name
  | _ => none

/-- The keys of a range in order. -/
def rangeKeys : List String := ["min", "max", "step"]

/-- A range of which any part may be missing, or all three parts in a row. -/
def range? (value : TomlValue) : Option PartialRange := do
  let entries ← value.asRecord? rangeKeys
  if value.asArray?.any fun items => items.length < rangeKeys.length then none
  let part (key : String) : Option (Option Float) :=
    entry? entries key none fun v => v.asFloat?.map some
  some ⟨← part "min", ← part "max", ← part "step"⟩

/-- The keys of the reading rules in order. -/
def readingKeys : List String :=
  ["nan_aliases", "thousands_separator", "max_samples", "default_range"]

/-- The reading rules. -/
def reading? (value : TomlValue) : Option ReadingRules := do
  let d := ReadingRules.standard
  let entries ← value.asRecord? readingKeys
  some
    { missingWords := ← entry? entries "nan_aliases" d.missingWords strings?
      groupSeparator :=
        ← entry? entries "thousands_separator" d.groupSeparator fun v => (character? v).map some
      maxSamples := ← entry? entries "max_samples" d.maxSamples count?
      defaultRange := ← entry? entries "default_range" d.defaultRange fun v => (range? v).map some }

/-- The keys of the drawing options in order. -/
def drawingKeys : List String :=
  ["draw_width", "draw_height", "margin", "axis_scale_x", "axis_scale_y"]

/-- The drawing options. -/
def drawing? (value : TomlValue) : Option DrawingOptions := do
  let d := DrawingOptions.standard
  let entries ← value.asRecord? drawingKeys
  some
    { width := ← entry? entries "draw_width" d.width length?
      height := ← entry? entries "draw_height" d.height length?
      margin := ← entry? entries "margin" d.margin length?
      xScale := ← entry? entries "axis_scale_x" d.xScale scale?
      yScale := ← entry? entries "axis_scale_y" d.yScale scale? }

/-- The settings that the entries of a document give, if all of them are right. -/
def ofEntries? (entries : List (String × TomlValue)) : Option Settings := do
  let d := standard
  some
    { grid := ← entry? entries "grid" d.grid TomlValue.asBool?
      cacheCapacity := ← entry? entries "cache_capacity" d.cacheCapacity count?
      reading := ← entry? entries "parser" d.reading reading?
      drawing := ← entry? entries "plot" d.drawing drawing? }

/-- The settings that a text gives, if it is a document and all of them are right. -/
def ofText? (text : List Char) : Option Settings :=
  (entriesOf? text).bind ofEntries?

/-- The settings that a text gives, standard if anything in it is wrong. -/
def ofText (text : List Char) : Settings :=
  (ofText? text).getD standard

end Settings

end CurvePlot
