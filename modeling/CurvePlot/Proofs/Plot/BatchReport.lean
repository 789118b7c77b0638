import CurvePlot.Proofs.Plot.Grouping
import CurvePlot.Proofs.Results
import Mathlib.Data.List.Basic

/-!
# Reports refine reading and grouping

Making a report in one go is the same as reading every formula, keeping the plots in order, and
grouping their series; the refusals are noted in order besides. A report loses nothing: its groups
partition the formulas that were read by their families, every group is mapped series by series,
and no group depends on the formulas of other families or on refused ones
(`Report.run_eq_and_faithful`).
-/

namespace CurvePlot

/-- The family that a formula is read as belonging to. -/
def ReadingRules.family? (rules : ReadingRules) (formula : String) : Option Family :=
  (rules.read formula).toOption.map Plot.family

/-- The formulas of one family, in order. -/
def ReadingRules.formulasOf (rules : ReadingRules) (family : Family) (formulas : List String) :
    List String :=
  formulas.filter fun formula => rules.family? formula == some family

/-- What is noted about a formula that was to be read. -/
def ReadFormula.diagnostic? (r : ReadFormula) : Option Diagnostic :=
  match r.outcome with
  | .ok _ => none
  | .error e => some ⟨r.source, e.display⟩

/-- Whether a report shows every formula that was read, in its place. -/
structure Report.Faithful (rules : ReadingRules) (o : DrawingOptions) (formulas : List String)
    (report : Report) : Prop where
  /-- No family has two groups. -/
  nodup : (report.groups.map FamilyGroup.family).Nodup
  /-- No group is empty. -/
  nonempty : ∀ g ∈ report.groups, g.series ≠ []
  /-- Every formula that is read has a group of its family. -/
  total : ∀ formula ∈ formulas, ∀ family, rules.family? formula = some family →
    family ∈ report.groups.map FamilyGroup.family
  /-- The groups stand in the order of the first formulas of their families. -/
  order : report.groups.Pairwise fun g h =>
    formulas.findIdx (fun formula => rules.family? formula == some g.family) <
      formulas.findIdx fun formula => rules.family? formula == some h.family
  /-- A group shows the formulas of its family in order. -/
  series : ∀ g ∈ report.groups, g.series =
    (rules.formulasOf g.family formulas).filterMap fun formula => (rules.sample formula).toOption
  /-- The mapping has the samples of each series that both axes can show, in order. -/
  parallel : ∀ g ∈ report.groups, g.mapping.series = g.series.map fun s =>
    (s.samples.filterMap o.scales.plot?).map
      (o.canvas.place g.mapping.xExtent g.mapping.yExtent)
  /-- Every formula is shown or noted. -/
  count : report.seriesCount + report.diagnostics.length = formulas.length
  /-- A group is what the formulas of its family make alone. -/
  alone : ∀ g ∈ report.groups,
    Report.run rules o (rules.formulasOf g.family formulas) = .ok ⟨[g], []⟩

namespace Report

variable {rules : ReadingRules} {o : DrawingOptions}

/-- The outcomes of formulas. -/
def outcomesOf (rules : ReadingRules) (formulas : List String) :
    List (String × Except FormulaError Series) :=
  formulas.map fun formula => (formula, rules.sample formula)

/-- A report is made of the outcomes of its formulas. -/
theorem run_eq_ofOutcomes (rules : ReadingRules) (o : DrawingOptions) (formulas : List String) :
    run rules o formulas = ofOutcomes o (outcomesOf rules formulas) :=
  rfl

/-- The family of a formula is that of its series. -/
theorem family?_eq (rules : ReadingRules) (formula : String) :
    rules.family? formula = (rules.sample formula).toOption.map Series.family := by
  unfold ReadingRules.family? ReadingRules.sample
  cases rules.read formula <;> rfl

/-- The series of outcomes are those of the plots that are read. -/
theorem seriesOf_outcomesOf (rules : ReadingRules) (formulas : List String) :
    seriesOf (outcomesOf rules formulas) =
      ((rules.readAll formulas).filterMap fun r => r.outcome.toOption).map Plot.series := by
  unfold seriesOf outcomesOf ReadingRules.readAll
  rw [List.filterMap_map, List.filterMap_map, List.map_filterMap]
  refine List.filterMap_congr fun formula _ => ?_
  simp only [Function.comp_apply, ReadingRules.sample]
  cases rules.read formula <;> rfl

/-- The refusals of outcomes are those of reading. -/
theorem diagnosticsOf_outcomesOf (rules : ReadingRules) (formulas : List String) :
    diagnosticsOf (outcomesOf rules formulas) =
      (rules.readAll formulas).filterMap ReadFormula.diagnostic? := by
  unfold diagnosticsOf outcomesOf ReadingRules.readAll
  rw [List.filterMap_map, List.filterMap_map]
  refine List.filterMap_congr fun formula _ => ?_
  simp only [Function.comp_apply, ReadingRules.sample, ReadFormula.diagnostic?]
  cases rules.read formula <;> rfl

/-- A report is what reading and grouping make, with the refusals. -/
theorem run_eq_ofPlots (rules : ReadingRules) (o : DrawingOptions) (formulas : List String) :
    run rules o formulas =
      (FamilyGroup.ofPlots o
        ((rules.readAll formulas).filterMap fun r => r.outcome.toOption)).map
        fun groups => ⟨groups, (rules.readAll formulas).filterMap ReadFormula.diagnostic?⟩ := by
  rw [run_eq_ofOutcomes, ofOutcomes, seriesOf_outcomesOf, diagnosticsOf_outcomesOf,
    FamilyGroup.ofPlots]

/-- The series of a family's formulas are the series of the family. -/
theorem seriesOf_formulasOf (rules : ReadingRules) (family : Family) (formulas : List String) :
    seriesOf (outcomesOf rules (rules.formulasOf family formulas)) =
      (seriesOf (outcomesOf rules formulas)).filter fun s => s.family == family := by
  induction formulas with
  | nil => rfl
  | cons formula rest ih =>
    unfold seriesOf outcomesOf ReadingRules.formulasOf at ih ⊢
    rw [List.filter_cons, family?_eq]
    cases hs : rules.sample formula with
    | error e => simpa [hs, Except.toOption] using ih
    | ok s =>
      by_cases hfamily : s.family = family
      · simpa [hs, Except.toOption, hfamily] using ih
      · simpa [hs, Except.toOption, hfamily] using ih

/-- No formula of a family is refused. -/
theorem diagnosticsOf_formulasOf (rules : ReadingRules) (family : Family)
    (formulas : List String) :
    diagnosticsOf (outcomesOf rules (rules.formulasOf family formulas)) = [] := by
  unfold diagnosticsOf outcomesOf
  rw [List.filterMap_map, List.filterMap_eq_nil_iff]
  intro formula hformula
  have hfamily := (List.mem_filter.mp hformula).2
  rw [family?_eq] at hfamily
  simp only [Function.comp_apply]
  cases hs : rules.sample formula with
  | error e => rw [hs] at hfamily; cases hfamily
  | ok s => rfl

/-- The order of the first series is the order of the first formulas. -/
theorem findIdx_lt_of_firstIndex_lt {formulas : List String} {f g : Family}
    (h : FamilyGroup.firstIndex (seriesOf (outcomesOf rules formulas)) f <
      FamilyGroup.firstIndex (seriesOf (outcomesOf rules formulas)) g) :
    formulas.findIdx (fun formula => rules.family? formula == some f) <
      formulas.findIdx fun formula => rules.family? formula == some g := by
  induction formulas with
  | nil => exact absurd h (Nat.lt_irrefl _)
  | cons formula rest ih =>
    unfold FamilyGroup.firstIndex seriesOf outcomesOf at ih h
    rw [List.map_cons, List.filterMap_cons] at h
    rw [List.findIdx_cons, List.findIdx_cons, family?_eq]
    cases hs : rules.sample formula with
    | error e =>
      rw [hs] at h
      exact Nat.add_lt_add_right (ih h) 1
    | ok s =>
      simp only [hs, Except.toOption, List.findIdx_cons] at h
      have hbeq (family : Family) : (Option.map Series.family (Except.ok s : Except FormulaError
          Series).toOption == some family) = (s.family == family) := rfl
      rw [hbeq, hbeq]
      cases hf : s.family == f with
      | true =>
        cases hg : s.family == g with
        | true => rw [hf, hg] at h; exact absurd h (Nat.lt_irrefl _)
        | false => exact Nat.succ_pos _
      | false =>
        cases hg : s.family == g with
        | true => rw [hg] at h; exact absurd h (Nat.not_lt_zero _)
        | false =>
          rw [hf, hg] at h
          exact Nat.add_lt_add_right (ih (Nat.lt_of_add_lt_add_right h)) 1

end Report

/-! ### Groups -/

namespace FamilyGroup

variable {o : DrawingOptions}

/-- A group has the family and the series that it was made of, and their mapping. -/
theorem ofMembers_eq_ok {p : Family × List Series} {g : FamilyGroup}
    (h : ofMembers o p = .ok g) :
    p = (g.family, g.series) ∧
      o.canvas.mapSeries o.scales (g.series.map Series.samples) = .ok g.mapping := by
  unfold ofMembers at h
  split at h
  · next mapping hmapping => cases h; exact ⟨rfl, hmapping⟩
  · cases h

/-- Where there are groups, the canvas is sound, and the groups have the families and series of the
partition. -/
theorem ofSeries_eq_ok {series : List Series} {groups : List FamilyGroup}
    (h : ofSeries o series = .ok groups) :
    o.canvas.fault? = none ∧ (∀ g ∈ groups, ofMembers o (g.family, g.series) = .ok g) ∧
      membersOf series = groups.map fun g => (g.family, g.series) := by
  unfold ofSeries at h
  cases hfault : o.canvas.fault? with
  | some fault => rw [hfault] at h; cases h
  | none =>
    rw [hfault] at h
    have hgroups := forall₂_of_mapM_eq_ok h
    have hmembers : membersOf series = groups.map fun g => (g.family, g.series) := by
      rw [← List.forall₂_eq_eq_eq, List.forall₂_map_right_iff]
      exact hgroups.imp fun p g hp => (ofMembers_eq_ok hp).1
    rw [hmembers, List.forall₂_map_left_iff, List.forall₂_same] at hgroups
    exact ⟨rfl, hgroups, hmembers⟩

/-- One family's series make one group. -/
theorem ofSeries_of_family {family : Family} {series : List Series} {g : FamilyGroup}
    (hfault : o.canvas.fault? = none) (hne : series ≠ []) (h : ∀ s ∈ series, s.family = family)
    (hg : ofMembers o (family, series) = .ok g) : ofSeries o series = .ok [g] := by
  rw [ofSeries, hfault]
  dsimp only
  rw [membersOf_of_family hne h, List.mapM_cons, hg]
  rfl

end FamilyGroup

namespace Report

variable {rules : ReadingRules} {o : DrawingOptions}

/-- The groups of a report are those of its series. -/
theorem run_eq_ok {formulas : List String} {report : Report}
    (h : run rules o formulas = .ok report) :
    FamilyGroup.ofSeries o (seriesOf (outcomesOf rules formulas)) = .ok report.groups ∧
      report.diagnostics = diagnosticsOf (outcomesOf rules formulas) := by
  rw [run_eq_ofOutcomes, ofOutcomes] at h
  obtain ⟨groups, hgroups, rfl⟩ := map_eq_ok h
  exact ⟨hgroups, rfl⟩

/-- The series of a formula is among those of its list. -/
theorem mem_seriesOf {formulas : List String} {formula : String} (h : formula ∈ formulas)
    {s : Series} (hs : rules.sample formula = .ok s) : s ∈ seriesOf (outcomesOf rules formulas) := by
  unfold seriesOf outcomesOf
  rw [List.filterMap_map, List.mem_filterMap]
  exact ⟨formula, h, by simp only [Function.comp_apply, hs, Except.toOption]⟩

/-- The formulas of one family make its group and nothing else. -/
theorem run_formulasOf {formulas : List String} {g : FamilyGroup}
    (hfault : o.canvas.fault? = none) (hne : g.series ≠ [])
    (hseries : g.series = seriesOf (outcomesOf rules (rules.formulasOf g.family formulas)))
    (hg : FamilyGroup.ofMembers o (g.family, g.series) = .ok g) :
    run rules o (rules.formulasOf g.family formulas) = .ok ⟨[g], []⟩ := by
  have hfamily : ∀ s ∈ g.series, s.family = g.family := by
    intro s hs
    rw [hseries, seriesOf_formulasOf] at hs
    exact beq_iff_eq.mp (List.mem_filter.mp hs).2
  have hgroups := FamilyGroup.ofSeries_of_family hfault hne hfamily hg
  rw [run_eq_ofOutcomes, ofOutcomes, ← hseries, hgroups, diagnosticsOf_formulasOf]
  rfl

/-- Every report shows every formula that was read, in its place. -/
theorem faithful_of_run {formulas : List String} {report : Report}
    (h : run rules o formulas = .ok report) : Faithful rules o formulas report := by
  obtain ⟨hgroups, hdiagnostics⟩ := run_eq_ok h
  obtain ⟨hfault, hmade, hmembers⟩ := FamilyGroup.ofSeries_eq_ok hgroups
  have hpartition :=
    FamilyGroup.partitions_membersOf (seriesOf (outcomesOf rules formulas))
  rw [hmembers] at hpartition
  have hfamilies : (report.groups.map fun g => (g.family, g.series)).map Prod.fst =
      report.groups.map FamilyGroup.family := by
    rw [List.map_map]
    rfl
  have hmem : ∀ g ∈ report.groups,
      (g.family, g.series) ∈ report.groups.map fun g => (g.family, g.series) :=
    fun g hg => List.mem_map_of_mem hg
  have hnonempty : ∀ g ∈ report.groups, g.series ≠ [] :=
    fun g hg => hpartition.nonempty _ (hmem g hg)
  have hseries : ∀ g ∈ report.groups,
      g.series = seriesOf (outcomesOf rules (rules.formulasOf g.family formulas)) := by
    intro g hg
    rw [seriesOf_formulasOf]
    exact hpartition.members _ (hmem g hg)
  refine ⟨hfamilies ▸ hpartition.nodup, hnonempty, ?_, ?_, ?_, ?_, ?_, ?_⟩
  · intro formula hformula family hfamily
    rw [family?_eq] at hfamily
    cases hs : rules.sample formula with
    | error e => rw [hs] at hfamily; cases hfamily
    | ok s =>
      rw [hs] at hfamily
      cases hfamily
      exact hfamilies ▸ hpartition.total s (mem_seriesOf hformula hs)
  · exact (List.pairwise_map.mp hpartition.order).imp findIdx_lt_of_firstIndex_lt
  · intro g hg
    rw [hseries g hg, seriesOf, outcomesOf, List.filterMap_map]
    rfl
  · intro g hg
    rw [(Canvas.mapSeries_eq_ok (FamilyGroup.ofMembers_eq_ok (hmade g hg)).2).2.2, List.map_map, List.map_map]
    rfl
  · have hcount := hpartition.count
    have hlength := length_seriesOf_add_length_diagnosticsOf (outcomesOf rules formulas)
    rw [List.flatMap_map] at hcount
    have hseriesCount : report.seriesCount = (seriesOf (outcomesOf rules formulas)).length := hcount
    rw [hseriesCount, hdiagnostics, hlength, outcomesOf, List.length_map]
  · intro g hg
    exact run_formulasOf hfault (hnonempty g hg) (hseries g hg) (hmade g hg)

/-- A report is what reading the formulas and grouping their plots make, with the refusals noted in
order; and it shows every formula that was read, in its place. -/
theorem run_eq_and_faithful (rules : ReadingRules) (o : DrawingOptions) (formulas : List String) :
    run rules o formulas =
        (FamilyGroup.ofPlots o
          ((rules.readAll formulas).filterMap fun r => r.outcome.toOption)).map
          (fun groups => ⟨groups, (rules.readAll formulas).filterMap ReadFormula.diagnostic?⟩) ∧
      ∀ report : Report, run rules o formulas = .ok report →
        Faithful rules o formulas report :=
  ⟨run_eq_ofPlots rules o formulas, fun _ h => faithful_of_run h⟩

/-- Two families with a refused formula between them. -/
def mixedFormulas : List String :=
  ["linear:2,3:0,1,1", "bogus:1", "quad:1,0,0:0,1,1", "linear:1,0:0,1,1"]

/-- Of two lines, a parabola and a refused formula, the report shows three. -/
theorem run_eq_and_faithful_mixed :
    ∃ report : Report, run .standard .standard mixedFormulas = .ok report ∧
      report.seriesCount + report.diagnostics.length = 4 ∧
      (report.groups.map FamilyGroup.family).Nodup := by
  have hsome : (run .standard .standard mixedFormulas).toOption.isSome = true := by
    decide +kernel
  cases hrun : run .standard .standard mixedFormulas with
  | error e => rw [hrun] at hsome; cases hsome
  | ok report =>
    have hfaithful := (run_eq_and_faithful .standard .standard mixedFormulas).2 report hrun
    exact ⟨report, rfl, hfaithful.count, hfaithful.nodup⟩

end Report

end CurvePlot
