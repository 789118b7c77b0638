import CurvePlot.Plot.Mapping

/-!
# Reports

A report shows many formulas at once. A formula that is refused is noted and skipped; it never
spoils the rest. The series of one family share a drawing and its extents, and the families stand
in the order in which they first appear. Only an unusable canvas or extent makes the whole report
fail, and the canvas is looked at first, even when nothing is left to draw.
-/

namespace CurvePlot

/-- The size of a drawing and the scales of its axes. -/
structure DrawingOptions where
  /-- The width in pixels. -/
  width : UInt32
  /-- The height in pixels. -/
  height : UInt32
  /-- The margin in pixels. -/
  margin : UInt32
  /-- The scale of the horizontal axis. -/
  xScale : AxisScale
  /-- The scale of the vertical axis. -/
  yScale : AxisScale
deriving DecidableEq, Repr

namespace DrawingOptions

/-- The options when nothing else is said. -/
def standard : DrawingOptions := ⟨800, 500, 10, .linear, .linear⟩

/-- The area that the options describe. -/
def canvas (o : DrawingOptions) : Canvas :=
  ⟨o.width.toFloat, o.height.toFloat, o.margin.toFloat⟩

/-- The scales of both axes. -/
def scales (o : DrawingOptions) : AxisScales :=
  ⟨o.xScale, o.yScale⟩

end DrawingOptions

/-- The series of one family, mapped against extents of their own. -/
structure FamilyGroup where
  /-- The family. -/
  family : Family
  /-- The series in the order of their formulas. -/
  series : List Series
  /-- The series mapped, in the same order. -/
  mapping : Mapping
deriving DecidableEq

/-- A formula that was skipped. -/
structure Diagnostic where
  /-- The formula as given. -/
  formula : String
  /-- Why it was skipped. -/
  message : String
deriving DecidableEq, Repr

/-- The outcome of a list of formulas. -/
structure Report where
  /-- The groups in the order of their families' first appearance. -/
  groups : List FamilyGroup
  /-- The skipped formulas in order. -/
  diagnostics : List Diagnostic
deriving DecidableEq

/-- What became of a formula that was to be read. -/
structure ReadFormula where
  /-- The formula as given. -/
  source : String
  /-- Its plot, or the refusal. -/
  outcome : Except FormulaError Plot

/-- Every formula read, in order; refusals stay in place. -/
def ReadingRules.readAll (rules : ReadingRules) (formulas : List String) : List ReadFormula :=
  formulas.map fun formula => ⟨formula, rules.read formula⟩

namespace FamilyGroup

/-- Series by family, with one more: behind those of its family, or as the first of a new family
behind all others. -/
def addMember (s : Series) : List (Family × List Series) → List (Family × List Series)
  | [] => [(s.family, [s])]
  | (family, members) :: rest =>
    if family == s.family then (family, members ++ [s]) :: rest
    else (family, members) :: addMember s rest

/-- Series by family, taken in order. -/
def membersOf (series : List Series) : List (Family × List Series) :=
  series.foldl (fun found s => addMember s found) []

/-- The series of one family mapped into a canvas. -/
def ofMembers (o : DrawingOptions) (found : Family × List Series) :
    Except MappingError FamilyGroup :=
  match o.canvas.mapSeries o.scales (found.2.map Series.samples) with
  | .ok mapping => .ok ⟨found.1, found.2, mapping⟩
  | .error e => .error e

/-- The groups of a list of series. -/
def ofSeries (o : DrawingOptions) (series : List Series) : Except MappingError (List FamilyGroup) :=
  match o.canvas.fault? with
  | some fault => .error fault
  | none => (membersOf series).mapM (ofMembers o)

/-- The groups of a list of plots. -/
def ofPlots (o : DrawingOptions) (plots : List Plot) : Except MappingError (List FamilyGroup) :=
  ofSeries o (plots.map Plot.series)

end FamilyGroup

namespace Report

/-- The series that a list of outcomes holds. -/
def seriesOf (outcomes : List (String × Except FormulaError Series)) : List Series :=
  outcomes.filterMap fun (_, outcome) => outcome.toOption

/-- The refusals that a list of outcomes holds. -/
def diagnosticsOf (outcomes : List (String × Except FormulaError Series)) : List Diagnostic :=
  outcomes.filterMap fun (formula, outcome) =>
    match outcome with
    | .ok _ => none
    | .error e => some ⟨formula, e.display⟩

/-- The report on formulas whose outcomes are known. -/
def ofOutcomes (o : DrawingOptions) (outcomes : List (String × Except FormulaError Series)) :
    Except MappingError Report :=
  (FamilyGroup.ofSeries o (seriesOf outcomes)).map fun groups => ⟨groups, diagnosticsOf outcomes⟩

/-- The report on a list of formulas. -/
def run (rules : ReadingRules) (o : DrawingOptions) (formulas : List String) :
    Except MappingError Report :=
  ofOutcomes o (formulas.map fun formula => (formula, rules.sample formula))

/-- The number of series in all groups. -/
def seriesCount (r : Report) : Nat :=
  (r.groups.flatMap FamilyGroup.series).length

/-- Every outcome is a series or a refusal. -/
theorem length_seriesOf_add_length_diagnosticsOf
    (outcomes : List (String × Except FormulaError Series)) :
    (seriesOf outcomes).length + (diagnosticsOf outcomes).length = outcomes.length := by
  induction outcomes with
  | nil => rfl
  | cons outcome rest ih =>
    obtain ⟨formula, outcome⟩ := outcome
    cases outcome with
    | error e =>
      simp only [seriesOf, diagnosticsOf, List.filterMap_cons, Except.toOption,
        List.length_cons] at ih ⊢
      omega
    | ok series =>
      simp only [seriesOf, diagnosticsOf, List.filterMap_cons, Except.toOption,
        List.length_cons] at ih ⊢
      omega

end Report

end CurvePlot
