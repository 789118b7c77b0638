import CurvePlot.Plot.Report

/-!
# Reports as tables

The table of a report has a header and one row for each mapped sample, in the order of groups,
series and samples. Rows end with a line feed. A field that holds a comma, a quote or a line break
is put between quotes, and quotes inside it are doubled.
-/

namespace CurvePlot.Csv

/-- Numbers in tables: powers of ten, without a plus sign, from `1e16` up and below `1e-5`. -/
def numbers : Spelling where
  positional := fun lead => -5 ≤ lead && lead ≤ 15
  pointZero := true
  plus := false
  tie := .even
  nan := "NaN"
  infinity := "inf"

/-- Whether a character makes quotes necessary. -/
def isSpecial (c : Char) : Bool :=
  c == ',' || c == '"' || c == '\r' || c == '\n'

/-- A character between quotes: a quote is written twice. -/
def escape (c : Char) : List Char :=
  if c == '"' then ['"', '"'] else [c]

/-- A field, quoted if necessary. -/
def field (text : String) : String :=
  if text.toList.any isSpecial then
    "\"" ++ String.ofList (text.toList.flatMap escape) ++ "\""
  else text

/-- A row: fields between commas and a line feed. -/
def row (fields : List String) : String :=
  String.intercalate "," (fields.map field) ++ "\n"

/-- The names of the columns. -/
def header : List String := ["family", "label", "x", "y", "draw_x", "draw_y"]

/-- The fields of a mapped sample. -/
def sampleFields (family : Family) (label : String) (s : MappedSample) : List String :=
  [family.name, label, numbers.write s.x, numbers.write s.y, numbers.write s.drawX,
    numbers.write s.drawY]

/-- The rows of a group. -/
def groupRows (g : FamilyGroup) : List (List String) :=
  (g.series.zip g.mapping.series).flatMap fun (series, samples) =>
    samples.map (sampleFields g.family series.label)

/-- The table of the groups. -/
def table (groups : List FamilyGroup) : String :=
  String.join ((header :: groups.flatMap groupRows).map row)

/-- Text without special characters is not quoted. -/
theorem field_eq_self {text : String} (h : text.toList.any isSpecial = false) :
    field text = text := by
  simp [field, h]

end CurvePlot.Csv
