import CurvePlot.Output.GroupJson
import CurvePlot.Proofs.Number.DecimalReading
import CurvePlot.Proofs.Output.JsonReading
import CurvePlot.Proofs.Plot.BatchReport
import CurvePlot.Proofs.Plot.DrawingBounds

/-!
# Groups are read back from JSON texts

Everything that a report shows is finite: samples are taken only where both coordinates are, an axis
shows finite values alone, extents without a finite length make the report fail, and places lie
inside the drawing (`Report.isFinite_of_run`). So no double in the JSON text of the groups is
missing, and a reader of the text finds the same groups again, whatever characters their labels hold
(`FamilyGroup.read?_jsonText_of_run`).
-/

namespace CurvePlot

/-! ### Readers of values -/

namespace JsonValue

variable {α : Type}

/-- The member of an object that has the name, read in a given way. -/
def field? (name : String) (read : JsonValue → Option α) : JsonValue → Option α
  | object members => (members.lookup name).bind read
  | _ => none

/-- The items of a row, each read in a given way. -/
def items? (read : JsonValue → Option α) : JsonValue → Option (List α)
  | array items => items.mapM read
  | _ => none

/-- A string. -/
def text? : JsonValue → Option String
  | string value => some value
  | _ => none

/-- A truth value. -/
def truth? : JsonValue → Option Bool
  | bool value => some value
  | _ => none

/-- The double that a number writes. -/
def double? : JsonValue → Option Float
  | number text => Double.read? text.toList
  | _ => none

/-- The items of a row are read back where each of them is. -/
theorem items?_map {read : JsonValue → Option α} {write : α → JsonValue} {items : List α}
    (h : ∀ item ∈ items, read (write item) = some item) :
    items? read (array (items.map write)) = some items := by
  change (items.map write).mapM read = some items
  induction items with
  | nil => rfl
  | cons item items ih =>
    rw [List.map_cons, List.mapM_cons, h item List.mem_cons_self,
      ih fun i hi => h i (List.mem_cons_of_mem _ hi)]
    rfl

/-- A finite double is read back. -/
theorem double?_ofFloat {x : Float} (h : x.isFinite = true) : (ofFloat x).double? = some x := by
  rw [ofFloat, if_pos h]
  exact Double.read?_write numbers h

/-- Whether a value is there and, if it is a number, has the text of one. -/
def Present (v : JsonValue) : Prop :=
  v.Legible ∧ v ≠ null

/-- A finite double is there. -/
theorem throughout_ofFloat {x : Float} (h : x.isFinite = true) :
    (ofFloat x).Throughout Present := by
  rw [ofFloat, if_pos h]
  exact .number ⟨legible_write h, by simp⟩

/-- A string is there. -/
theorem throughout_string (text : String) : (string text).Throughout Present :=
  .string ⟨trivial, by simp⟩

/-- A truth value is there. -/
theorem throughout_bool (value : Bool) : (bool value).Throughout Present :=
  .bool ⟨trivial, by simp⟩

/-- A row is there with its items. -/
theorem throughout_array {write : α → JsonValue} {items : List α}
    (h : ∀ item ∈ items, (write item).Throughout Present) :
    (array (items.map write)).Throughout Present := by
  refine .array ⟨trivial, by simp⟩ fun v hv => ?_
  obtain ⟨item, hitem, rfl⟩ := List.mem_map.mp hv
  exact h item hitem

/-- An object is there with its members. -/
theorem throughout_object {members : List (String × JsonValue)}
    (h : ∀ m ∈ members, m.2.Throughout Present) : (object members).Throughout Present :=
  .object ⟨trivial, by simp⟩ h

end JsonValue

open JsonValue

/-- The family with the name. -/
def Family.ofJson? : JsonValue → Option Family
  | .string "Quadratic" => some quadratic
  | .string "Linear" => some linear
  | .string "Sine" => some sine
  | .string "Cosine" => some cosine
  | .string "Polar" => some polar
  | .string "Exponential" => some exponential
  | .string "Logarithmic" => some logarithmic
  | .string "GenericExpression" => some expression
  | _ => none

/-- The sample that an object writes. -/
def Sample.ofJson? (v : JsonValue) : Option Sample := do
  return ⟨← v.field? "x" double?, ← v.field? "y" double?⟩

/-- The series that an object writes. -/
def Series.ofJson? (v : JsonValue) : Option Series := do
  return ⟨← v.field? "label" text?, ← v.field? "family" Family.ofJson?,
    ← v.field? "samples" (items? Sample.ofJson?)⟩

/-- The extent that an object writes. -/
def Extent.ofJson? (v : JsonValue) : Option Extent := do
  return ⟨← v.field? "min" double?, ← v.field? "max" double?, ← v.field? "widened" truth?⟩

/-- The mapped sample that an object writes. -/
def MappedSample.ofJson? (v : JsonValue) : Option MappedSample := do
  return ⟨← v.field? "x" double?, ← v.field? "y" double?, ← v.field? "draw_x" double?,
    ← v.field? "draw_y" double?⟩

/-- The mapping that an object writes. -/
def Mapping.ofJson? (v : JsonValue) : Option Mapping := do
  return ⟨← v.field? "x_extent" Extent.ofJson?, ← v.field? "y_extent" Extent.ofJson?,
    ← v.field? "series" (items? (items? MappedSample.ofJson?))⟩

/-- The group that an object writes. -/
def FamilyGroup.ofJson? (v : JsonValue) : Option FamilyGroup := do
  return ⟨← v.field? "family" Family.ofJson?, ← v.field? "series" (items? Series.ofJson?),
    ← v.field? "mapping" Mapping.ofJson?⟩

/-- The groups that a JSON text writes. -/
def FamilyGroup.ofJsonText? (text : List Char) : Option (List FamilyGroup) :=
  (JsonValue.read? text).bind (items? FamilyGroup.ofJson?)

/-! ### Finite groups -/

/-- Whether both coordinates of a sample are finite. -/
structure Sample.IsFinite (s : Sample) : Prop where
  /-- The horizontal coordinate is finite. -/
  x : s.x.isFinite = true
  /-- The vertical coordinate is finite. -/
  y : s.y.isFinite = true

/-- Whether both bounds of an extent are finite. -/
structure Extent.IsFinite (e : Extent) : Prop where
  /-- The lower bound is finite. -/
  min : e.min.isFinite = true
  /-- The upper bound is finite. -/
  max : e.max.isFinite = true

/-- Whether the coordinates of a mapped sample and its place are finite. -/
structure MappedSample.IsFinite (s : MappedSample) : Prop where
  /-- The horizontal coordinate is finite. -/
  x : s.x.isFinite = true
  /-- The vertical coordinate is finite. -/
  y : s.y.isFinite = true
  /-- The horizontal place is finite. -/
  drawX : s.drawX.isFinite = true
  /-- The vertical place is finite. -/
  drawY : s.drawY.isFinite = true

/-- Whether extents and mapped samples of a mapping are finite. -/
structure Mapping.IsFinite (m : Mapping) : Prop where
  /-- The horizontal extent is finite. -/
  xExtent : m.xExtent.IsFinite
  /-- The vertical extent is finite. -/
  yExtent : m.yExtent.IsFinite
  /-- The mapped samples are finite. -/
  series : ∀ samples ∈ m.series, ∀ s ∈ samples, s.IsFinite

/-- Whether the samples of a group and its mapping are finite. -/
structure FamilyGroup.IsFinite (g : FamilyGroup) : Prop where
  /-- The samples are finite. -/
  series : ∀ s ∈ g.series, ∀ sample ∈ s.samples, sample.IsFinite
  /-- The mapping is finite. -/
  mapping : g.mapping.IsFinite

/-! ### Each part is read back -/

/-- A family is read back from its name. -/
theorem Family.ofJson?_jsonName (f : Family) : ofJson? (.string f.jsonName) = some f := by
  cases f <;> rfl

/-- A finite sample is read back. -/
theorem Sample.ofJson?_toJson {s : Sample} (h : s.IsFinite) : ofJson? s.toJson = some s := by
  have hx : s.toJson.field? "x" double? = some s.x := double?_ofFloat h.x
  have hy : s.toJson.field? "y" double? = some s.y := double?_ofFloat h.y
  simp [ofJson?, hx, hy]

/-- A series of finite samples is read back. -/
theorem Series.ofJson?_toJson {s : Series} (h : ∀ sample ∈ s.samples, sample.IsFinite) :
    ofJson? s.toJson = some s := by
  have hlabel : s.toJson.field? "label" text? = some s.label := rfl
  have hfamily : s.toJson.field? "family" Family.ofJson? = some s.family :=
    Family.ofJson?_jsonName s.family
  have hsamples : s.toJson.field? "samples" (items? Sample.ofJson?) = some s.samples :=
    items?_map fun sample hsample => Sample.ofJson?_toJson (h sample hsample)
  simp [ofJson?, hlabel, hfamily, hsamples]

/-- A finite extent is read back. -/
theorem Extent.ofJson?_toJson {e : Extent} (h : e.IsFinite) : ofJson? e.toJson = some e := by
  have hmin : e.toJson.field? "min" double? = some e.min := double?_ofFloat h.min
  have hmax : e.toJson.field? "max" double? = some e.max := double?_ofFloat h.max
  have hwidened : e.toJson.field? "widened" truth? = some e.widened := rfl
  simp [ofJson?, hmin, hmax, hwidened]

/-- A finite mapped sample is read back. -/
theorem MappedSample.ofJson?_toJson {s : MappedSample} (h : s.IsFinite) :
    ofJson? s.toJson = some s := by
  have hx : s.toJson.field? "x" double? = some s.x := double?_ofFloat h.x
  have hy : s.toJson.field? "y" double? = some s.y := double?_ofFloat h.y
  have hdrawX : s.toJson.field? "draw_x" double? = some s.drawX := double?_ofFloat h.drawX
  have hdrawY : s.toJson.field? "draw_y" double? = some s.drawY := double?_ofFloat h.drawY
  simp [ofJson?, hx, hy, hdrawX, hdrawY]

/-- A finite mapping is read back. -/
theorem Mapping.ofJson?_toJson {m : Mapping} (h : m.IsFinite) : ofJson? m.toJson = some m := by
  have hx : m.toJson.field? "x_extent" Extent.ofJson? = some m.xExtent :=
    Extent.ofJson?_toJson h.xExtent
  have hy : m.toJson.field? "y_extent" Extent.ofJson? = some m.yExtent :=
    Extent.ofJson?_toJson h.yExtent
  have hseries : m.toJson.field? "series" (items? (items? MappedSample.ofJson?)) = some m.series :=
    items?_map fun samples hsamples => items?_map fun s hs =>
      MappedSample.ofJson?_toJson (h.series samples hsamples s hs)
  simp [ofJson?, hx, hy, hseries]

/-- A finite group is read back. -/
theorem FamilyGroup.ofJson?_toJson {g : FamilyGroup} (h : g.IsFinite) :
    ofJson? g.toJson = some g := by
  have hfamily : g.toJson.field? "family" Family.ofJson? = some g.family :=
    Family.ofJson?_jsonName g.family
  have hseries : g.toJson.field? "series" (items? Series.ofJson?) = some g.series :=
    items?_map fun s hs => Series.ofJson?_toJson (h.series s hs)
  have hmapping : g.toJson.field? "mapping" Mapping.ofJson? = some g.mapping :=
    Mapping.ofJson?_toJson h.mapping
  simp [ofJson?, hfamily, hseries, hmapping]

/-! ### Nothing is missing -/

/-- In a finite sample nothing is missing. -/
theorem Sample.throughout_toJson {s : Sample} (h : s.IsFinite) :
    s.toJson.Throughout Present :=
  throughout_object (by simp [throughout_ofFloat h.x, throughout_ofFloat h.y])

/-- In a series of finite samples nothing is missing. -/
theorem Series.throughout_toJson {s : Series} (h : ∀ sample ∈ s.samples, sample.IsFinite) :
    s.toJson.Throughout Present := by
  have hsamples : (JsonValue.array (s.samples.map Sample.toJson)).Throughout Present :=
    throughout_array fun sample hsample => Sample.throughout_toJson (h sample hsample)
  exact throughout_object (by simp [throughout_string, hsamples])

/-- In a finite extent nothing is missing. -/
theorem Extent.throughout_toJson {e : Extent} (h : e.IsFinite) :
    e.toJson.Throughout Present :=
  throughout_object (by
    simp [throughout_ofFloat h.min, throughout_ofFloat h.max, throughout_bool])

/-- In a finite mapped sample nothing is missing. -/
theorem MappedSample.throughout_toJson {s : MappedSample} (h : s.IsFinite) :
    s.toJson.Throughout Present :=
  throughout_object (by
    simp [throughout_ofFloat h.x, throughout_ofFloat h.y, throughout_ofFloat h.drawX,
      throughout_ofFloat h.drawY])

/-- In a finite mapping nothing is missing. -/
theorem Mapping.throughout_toJson {m : Mapping} (h : m.IsFinite) :
    m.toJson.Throughout Present := by
  have hseries : (JsonValue.array (m.series.map fun samples =>
      .array (samples.map MappedSample.toJson))).Throughout Present :=
    throughout_array fun samples hsamples => throughout_array fun s hs =>
      MappedSample.throughout_toJson (h.series samples hsamples s hs)
  exact throughout_object (by
    simp [Extent.throughout_toJson h.xExtent, Extent.throughout_toJson h.yExtent, hseries])

/-- In a finite group nothing is missing. -/
theorem FamilyGroup.throughout_toJson {g : FamilyGroup} (h : g.IsFinite) :
    g.toJson.Throughout Present := by
  have hseries : (JsonValue.array (g.series.map Series.toJson)).Throughout Present :=
    throughout_array fun s hs => Series.throughout_toJson (h.series s hs)
  exact throughout_object (by
    simp [throughout_string, hseries, Mapping.throughout_toJson h.mapping])

/-! ### Reports are finite -/

/-- A curve has finite samples alone. -/
theorem Curve.isFinite_of_sample? {curve : Curve Float} {point : Float} {s : Sample}
    (h : curve.sample? point = some s) : s.IsFinite := by
  have hfinite {x y : Float} (hs : Sample.finite? x y = some s) : s.IsFinite := by
    obtain ⟨rfl, hx, hy⟩ := Sample.finite?_eq_some hs
    exact ⟨hx, hy⟩
  cases curve with
  | polar scale multiplier => exact hfinite h
  | expression e =>
    simp only [sample?, expressionSample?] at h
    split at h
    · exact hfinite h
    · cases h
  | logarithmic a b =>
    simp only [sample?] at h
    split at h
    · exact hfinite h
    · cases h
  | _ => exact hfinite h

/-- A formula that is read has finite samples alone. -/
theorem ReadingRules.isFinite_of_sample {rules : ReadingRules} {formula : String} {s : Series}
    (h : rules.sample formula = .ok s) : ∀ sample ∈ s.samples, sample.IsFinite := by
  obtain ⟨plot, -, rfl⟩ := map_eq_ok h
  intro sample hsample
  rw [Plot.series, Curve.samples_eq] at hsample
  obtain ⟨point, -, hpoint⟩ := List.mem_filterMap.mp hsample
  exact Curve.isFinite_of_sample? hpoint

/-- Series that are mapped have a finite mapping. -/
theorem DrawingOptions.isFinite_of_map {o : DrawingOptions} {series : List (List Sample)}
    {m : Mapping} (h : o.canvas.map o.scales series = .ok m) : m.IsFinite := by
  obtain ⟨hfault, hx, hy, hplaces⟩ := exists_place_of_map h
  obtain ⟨hxMin, hxMax, -⟩ := Extent.span_of_isUsable hx
  obtain ⟨hyMin, hyMax, -⟩ := Extent.span_of_isUsable hy
  refine ⟨⟨hxMin, hxMax⟩, ⟨hyMin, hyMax⟩, fun samples hsamples s hs => ?_⟩
  obtain ⟨p, hp, hxPlot, hyPlot, hxShows, hyShows⟩ :=
    hplaces s (List.mem_flatten.mpr ⟨samples, hsamples, hs⟩)
  have hinside : o.canvas.Inside s := hp ▸ inside_place hfault hx hy hxShows hyShows
  exact ⟨(AxisScale.isFinite_of_toPlot? hxPlot).1,
    (AxisScale.isFinite_of_toPlot? hyPlot).1, hinside.isFinite_drawX, hinside.isFinite_drawY⟩

/-- The groups of a report are finite. -/
theorem Report.isFinite_of_run {rules : ReadingRules} {o : DrawingOptions} {formulas : List String}
    {report : Report} (h : run rules o formulas = .ok report) :
    ∀ g ∈ report.groups, g.IsFinite := by
  obtain ⟨hfault, hmade, -⟩ := FamilyGroup.ofSeries_eq_ok (run_eq_ok h).1
  intro g hg
  constructor
  · intro s hs
    rw [(faithful_of_run h).series g hg] at hs
    obtain ⟨formula, -, hformula⟩ := List.mem_filterMap.mp hs
    cases hsample : rules.sample formula with
    | error e => rw [hsample] at hformula; cases hformula
    | ok series =>
      rw [hsample] at hformula
      cases hformula
      exact ReadingRules.isFinite_of_sample hsample
  · have hmapped : o.canvas.map o.scales (g.series.map Series.samples) = .ok g.mapping := by
      rw [Canvas.map, hfault]
      exact (FamilyGroup.ofMembers_eq_ok (hmade g hg)).2
    exact DrawingOptions.isFinite_of_map hmapped

namespace FamilyGroup

/-- The JSON text of a report's groups is a JSON text. It writes a row with an object for each group
and no missing value, and a reader finds the same groups in it: families, labels, samples, extents
and mapped samples in the same order. -/
theorem read?_jsonText_of_run {rules : ReadingRules} {o : DrawingOptions} {formulas : List String}
    {report : Report} (h : Report.run rules o formulas = .ok report) :
    JsonValue.read? (jsonText report.groups).toList = some (.array (report.groups.map toJson)) ∧
      (JsonValue.array (report.groups.map toJson)).Throughout (· ≠ .null) ∧
      ofJsonText? (jsonText report.groups).toList = some report.groups := by
  have hfinite := Report.isFinite_of_run h
  have hpresent : (JsonValue.array (report.groups.map toJson)).Throughout Present :=
    throughout_array fun g hg => throughout_toJson (hfinite g hg)
  have hread : JsonValue.read? (jsonText report.groups).toList =
      some (.array (report.groups.map toJson)) :=
    JsonValue.read?_pretty (hpresent.imp fun _ hv => hv.1)
  have hgroups : items? ofJson? (.array (report.groups.map toJson)) = some report.groups :=
    items?_map fun g hg => ofJson?_toJson (hfinite g hg)
  refine ⟨hread, hpresent.imp fun _ hv => hv.2, ?_⟩
  rw [ofJsonText?, hread, Option.bind_some, hgroups]

/-- The label of the second line holds a vertical tab, and the logarithm has no samples. -/
theorem read?_jsonText_of_run_blanks :
    ∃ report : Report,
      Report.run .standard .standard ["linear:2,3:0,1,1", "y = x +\x0b1", "log:1,0:-1,0,1"] =
        .ok report ∧
      (report.groups.flatMap FamilyGroup.series).map Series.label =
        ["linear:2,3:0,1,1", "y = x +\x0b1", "log:1,0:-1,0,1"] ∧
      JsonValue.read? (jsonText report.groups).toList = some (.array (report.groups.map toJson)) ∧
      ofJsonText? (jsonText report.groups).toList = some report.groups := by
  have hlabels : (Report.run .standard .standard
      ["linear:2,3:0,1,1", "y = x +\x0b1", "log:1,0:-1,0,1"]).toOption.map (fun report =>
        (report.groups.flatMap FamilyGroup.series).map Series.label) =
      some ["linear:2,3:0,1,1", "y = x +\x0b1", "log:1,0:-1,0,1"] := by
    decide +kernel
  cases hrun : Report.run .standard .standard
      ["linear:2,3:0,1,1", "y = x +\x0b1", "log:1,0:-1,0,1"] with
  | error e => rw [hrun] at hlabels; cases hlabels
  | ok report =>
    rw [hrun] at hlabels
    obtain ⟨hread, -, hgroups⟩ := read?_jsonText_of_run hrun
    exact ⟨report, rfl, Option.some.inj hlabels, hread, hgroups⟩

end FamilyGroup

end CurvePlot
