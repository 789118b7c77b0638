import CurvePlot.Output.Json
import CurvePlot.Plot.Report

/-!
# Reports as JSON

The groups of a report as a JSON array: for each the family, the series with their samples, and the
mapping with both extents and the mapped samples.
-/

namespace CurvePlot

/-- The family's name in JSON texts. -/
def Family.jsonName : Family → String
  | quadratic => "Quadratic"
  | linear => "Linear"
  | sine => "Sine"
  | cosine => "Cosine"
  | polar => "Polar"
  | exponential => "Exponential"
  | logarithmic => "Logarithmic"
  | expression => "GenericExpression"

/-- A sample with its coordinates. -/
def Sample.toJson (s : Sample) : JsonValue :=
  .object [("x", .ofFloat s.x), ("y", .ofFloat s.y)]

/-- A series with its samples. -/
def Series.toJson (s : Series) : JsonValue :=
  .object
    [("label", .string s.label), ("family", .string s.family.jsonName),
      ("samples", .array (s.samples.map Sample.toJson))]

/-- An extent with its bounds. -/
def Extent.toJson (e : Extent) : JsonValue :=
  .object [("min", .ofFloat e.min), ("max", .ofFloat e.max), ("widened", .bool e.widened)]

/-- A mapped sample with its coordinates and its place. -/
def MappedSample.toJson (s : MappedSample) : JsonValue :=
  .object
    [("x", .ofFloat s.x), ("y", .ofFloat s.y), ("draw_x", .ofFloat s.drawX),
      ("draw_y", .ofFloat s.drawY)]

/-- A mapping with its extents and series. -/
def Mapping.toJson (m : Mapping) : JsonValue :=
  .object
    [("x_extent", m.xExtent.toJson), ("y_extent", m.yExtent.toJson),
      ("series",
        .array (m.series.map fun samples => .array (samples.map MappedSample.toJson)))]

/-- A group with its series and its mapping. -/
def FamilyGroup.toJson (g : FamilyGroup) : JsonValue :=
  .object
    [("family", .string g.family.jsonName), ("series", .array (g.series.map Series.toJson)),
      ("mapping", g.mapping.toJson)]

/-- The JSON text of the groups. -/
def FamilyGroup.jsonText (groups : List FamilyGroup) : String :=
  (JsonValue.array (groups.map FamilyGroup.toJson)).pretty

end CurvePlot
