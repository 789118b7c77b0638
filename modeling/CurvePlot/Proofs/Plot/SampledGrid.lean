import CurvePlot.Proofs.Expr.StrictEvaluation
import CurvePlot.Proofs.Output.GroupReading
import CurvePlot.Proofs.Plot.SampleCap
import CurvePlot.Proofs.Plot.TightExtents

/-!
# Samples are the finite part of the grid

`Curve.Meets` says which point a curve gives at a point of the grid, without asking whether its
coordinates are finite. The samples of a plot are those of exactly the indices where they are, in
the order of the grid (`Plot.SamplesExactly`). The grid must have a count for this, as those of all
plots that are read have. An expression has a finite value wherever it is evaluated, but a point of
the grid can be infinite, where an expression without the variable still has its value: such a point
leaves no sample (`Plot.not_samplesExactly_evaluated`).

Linear axes show all that is finite, so that grouping and mapping plots against them lose no sample
(`Plot.samplesExactly_and_mapped`).
-/

namespace CurvePlot

open Double

/-! ### The points of a curve -/

/-- The point that a curve gives at a point of the grid: a value of `x`, or degrees for the polar
curve. -/
inductive Curve.Meets : Curve Float → Float → Sample → Prop
  /-- A quadratic. -/
  | quadratic {a b c x : Float} : Meets (.quadratic a b c) x ⟨x, a * x * x + b * x + c⟩
  /-- A line. -/
  | linear {m b x : Float} : Meets (.linear m b) x ⟨x, m * x + b⟩
  /-- A sine. -/
  | sine {amplitude frequency phase x : Float} :
    Meets (.sine amplitude frequency phase) x ⟨x, amplitude * (frequency * x + phase).sin⟩
  /-- A cosine. -/
  | cosine {amplitude frequency phase x : Float} :
    Meets (.cosine amplitude frequency phase) x ⟨x, amplitude * (frequency * x + phase).cos⟩
  /-- An exponential. -/
  | exponential {a b x : Float} : Meets (.exponential a b) x ⟨x, a * (b * x).exp⟩
  /-- A logarithm, at positive points. -/
  | logarithmic {a b x : Float} (h : x > 0) : Meets (.logarithmic a b) x ⟨x, a * x.log + b⟩
  /-- A polar curve, whose radius is the scale times the size of a sine. -/
  | polar {scale multiplier degrees : Float} :
    Meets (.polar scale multiplier) degrees
      ⟨scale * (multiplier * radians degrees).sin.abs * (radians degrees).cos,
        scale * (multiplier * radians degrees).sin.abs * (radians degrees).sin⟩
  /-- An expression, where it can be evaluated. -/
  | expression {e : Expression} {x y : Float} (h : e.evaluate x = .ok y) :
    Meets (.expression e) x ⟨x, y⟩

/-- Finite coordinates pass, and nothing else does. -/
theorem Sample.finite?_eq_some_iff {x y : Float} {s : Sample} :
    finite? x y = some s ↔ s = ⟨x, y⟩ ∧ s.IsFinite := by
  constructor
  · intro h
    obtain ⟨rfl, hx, hy⟩ := finite?_eq_some h
    exact ⟨rfl, hx, hy⟩
  · rintro ⟨rfl, hx, hy⟩
    simp only at hx hy
    simp [finite?, hx, hy]

namespace Curve

variable {curve : Curve Float} {p : Float} {s : Sample}

/-- The points of all families but the polar one are values of `x`. -/
theorem Meets.x_eq (h : curve.Meets p s) (hfamily : curve.family ≠ .polar) : s.x = p := by
  cases h with
  | polar => exact absurd rfl hfamily
  | _ => rfl

/-- A curve that gives one point there is sampled if this point is finite. -/
theorem sample?_iff_of_meets {x y : Float} (hsample : curve.sample? p = Sample.finite? x y)
    (hmeets : curve.Meets p ⟨x, y⟩) (hunique : ∀ {t}, curve.Meets p t → t = ⟨x, y⟩) :
    curve.sample? p = some s ↔ curve.Meets p s ∧ s.IsFinite := by
  rw [hsample, Sample.finite?_eq_some_iff]
  exact and_congr_left' ⟨fun h => h ▸ hmeets, hunique⟩

/-- A curve is sampled where the point that it gives is finite. -/
theorem sample?_eq_some_iff : curve.sample? p = some s ↔ curve.Meets p s ∧ s.IsFinite := by
  cases curve with
  | quadratic a b c => exact sample?_iff_of_meets rfl .quadratic fun h => by cases h; rfl
  | linear m b => exact sample?_iff_of_meets rfl .linear fun h => by cases h; rfl
  | sine amplitude frequency phase =>
    exact sample?_iff_of_meets rfl .sine fun h => by cases h; rfl
  | cosine amplitude frequency phase =>
    exact sample?_iff_of_meets rfl .cosine fun h => by cases h; rfl
  | exponential a b => exact sample?_iff_of_meets rfl .exponential fun h => by cases h; rfl
  | polar scale multiplier => exact sample?_iff_of_meets rfl .polar fun h => by cases h; rfl
  | logarithmic a b =>
    by_cases hpos : p > 0
    · exact sample?_iff_of_meets (if_pos hpos) (.logarithmic hpos) fun h => by cases h; rfl
    · simp only [sample?, if_neg hpos]
      refine iff_of_false (by simp) ?_
      rintro ⟨hmeets, -⟩
      cases hmeets with
      | logarithmic h => exact hpos h
  | expression e =>
    have hvalue : e.doubles.evaluate p = e.evaluate p := rfl
    cases he : e.evaluate p with
    | ok y =>
      have hsample : (expression e).sample? p = Sample.finite? p y := by
        simp only [sample?, expressionSample?, hvalue, he]
      refine sample?_iff_of_meets hsample (.expression he) fun h => ?_
      cases h with
      | expression hy => rw [he] at hy; cases hy; rfl
    | error error =>
      simp only [sample?, expressionSample?, hvalue, he]
      refine iff_of_false (by simp) ?_
      rintro ⟨hmeets, -⟩
      cases hmeets with
      | expression hy => rw [he] at hy; cases hy

end Curve

/-! ### The variable in a tree -/

/-- A tree with the variable has a node of it. -/
theorem Expr.exists_var_mem_nodes {ν : Type} {e : Expr ν} (h : e.hasVariable = true) :
    ∃ span, .var span ∈ e.nodes := by
  induction e with
  | number _ _ | constant _ _ => cases h
  | var span => exact ⟨span, by simp [nodes]⟩
  | binary operator left right span ihl ihr =>
    rcases Bool.or_eq_true_iff.mp h with h | h
    · obtain ⟨span, hspan⟩ := ihl h
      exact ⟨span, by simp [nodes, hspan]⟩
    · obtain ⟨span, hspan⟩ := ihr h
      exact ⟨span, by simp [nodes, hspan]⟩
  | negation operand span ih =>
    obtain ⟨span, hspan⟩ := ih h
    exact ⟨span, by simp [nodes, hspan]⟩
  | call function argument span ih =>
    obtain ⟨span, hspan⟩ := ih h
    exact ⟨span, by simp [nodes, hspan]⟩

/-- Where the variable occurs, evaluation asks for a finite point. -/
theorem Expression.isFinite_of_evaluate {e : Expression} (h : e.isConstant = false) {x y : Float}
    (hy : e.evaluate x = .ok y) : x.isFinite = true := by
  have hvariable : e.doubles.hasVariable = true := by
    simpa [Expression.isConstant, Expression.doubles] using h
  obtain ⟨span, hspan⟩ := Expr.exists_var_mem_nodes hvariable
  have hdoubles : e.doubles.evaluate x = .ok y := hy
  have hvalue := (Expr.evaluate_eq_ok_iff.mp hdoubles).1 (.var span) hspan
  rwa [Expr.value] at hvalue

/-! ### Sampling -/

/-- The entries that a partial map keeps, with what it makes of them. -/
theorem forall₂_filter_filterMap {α β : Type} (f : α → Option β) (xs : List α) :
    List.Forall₂ (fun x y => f x = some y) (xs.filter fun x => (f x).isSome) (xs.filterMap f) := by
  induction xs with
  | nil => exact .nil
  | cons x xs ih =>
    cases hx : f x with
    | none => simpa [hx] using ih
    | some y => simpa [hx] using ih

namespace Plot

/-- The grid points are counted, and the samples are those of the points whose indices are kept, one
for each, in order. -/
def SamplesExactly (p : Plot) (kept : ℕ → Prop) : Prop :=
  ∃ (n : ℕ) (indices : List ℕ), p.domain.sampleCount? = some n ∧ indices.Pairwise (· < ·) ∧
    (∀ i, i ∈ indices ↔ i < n ∧ kept i) ∧
      List.Forall₂ (fun i s => p.curve.Meets (p.domain.point i) s) indices p.series.samples

variable {p : Plot} {kept other : ℕ → Prop}

/-- Which indices are kept may be said in other words. -/
theorem SamplesExactly.congr (h : p.SamplesExactly kept) (hiff : ∀ i, kept i ↔ other i) :
    p.SamplesExactly other := by
  obtain ⟨n, indices, hcount, hordered, hmem, hsamples⟩ := h
  exact ⟨n, indices, hcount, hordered, fun i => by rw [hmem, hiff], hsamples⟩

/-- The samples of a plot are finite. -/
theorem isFinite_of_mem_samples {s : Sample} (h : s ∈ p.series.samples) : s.IsFinite := by
  rw [series, Curve.samples_eq] at h
  obtain ⟨point, -, hpoint⟩ := List.mem_filterMap.mp h
  exact (Curve.sample?_eq_some_iff.mp hpoint).2

/-- The samples are those of the grid points, as far as there are any, where the curve is finite. -/
theorem exists_sampled_indices (p : Plot) :
    ∃ indices : List ℕ, indices.Pairwise (· < ·) ∧
      (∀ i, i ∈ indices ↔ i < p.domain.sampleCount ∧
        ∃ s, p.curve.Meets (p.domain.point i) s ∧ s.IsFinite) ∧
      List.Forall₂ (fun i s => p.curve.Meets (p.domain.point i) s) indices p.series.samples := by
  have hsamples : p.series.samples =
      (List.range p.domain.sampleCount).filterMap fun i => p.curve.sample? (p.domain.point i) := by
    rw [series, Curve.samples_eq, Domain.points, List.filterMap_map]
    rfl
  refine ⟨(List.range p.domain.sampleCount).filter fun i =>
    (p.curve.sample? (p.domain.point i)).isSome, List.pairwise_lt_range.filter _, fun i => ?_, ?_⟩
  · rw [List.mem_filter, List.mem_range, Option.isSome_iff_exists]
    exact and_congr_right' (exists_congr fun s => Curve.sample?_eq_some_iff)
  · rw [hsamples]
    have hkept := forall₂_filter_filterMap (fun i => p.curve.sample? (p.domain.point i))
      (List.range p.domain.sampleCount)
    exact hkept.imp fun i s h => (Curve.sample?_eq_some_iff.mp h).1

/-- A plot whose grid points are counted is sampled at those where its curve is finite. -/
theorem samplesExactly_finite (hcounted : p.domain.sampleCount?.isSome = true) :
    p.SamplesExactly fun i => ∃ s, p.curve.Meets (p.domain.point i) s ∧ s.IsFinite := by
  obtain ⟨n, hcount⟩ := Option.isSome_iff_exists.mp hcounted
  obtain ⟨indices, hordered, hmem, hsamples⟩ := p.exists_sampled_indices
  rw [Domain.sampleCount, hcount, Option.getD_some] at hmem
  exact ⟨n, indices, hcount, hordered, hmem, hsamples⟩

/-- An expression is sampled at the finite grid points where it can be evaluated. -/
theorem samplesExactly_expression (hcounted : p.domain.sampleCount?.isSome = true) {e : Expression}
    (h : p.curve = .expression e) :
    p.SamplesExactly fun i =>
      (p.domain.point i).isFinite = true ∧ ∃ y, e.evaluate (p.domain.point i) = .ok y := by
  refine (samplesExactly_finite hcounted).congr fun i => ?_
  rw [h]
  constructor
  · rintro ⟨s, hmeets, hfinite⟩
    cases hmeets with
    | expression hy => exact ⟨hfinite.x, _, hy⟩
  · rintro ⟨hpoint, y, hy⟩
    exact ⟨_, .expression hy, hpoint, Expr.isFinite_of_evaluate hy⟩

/-- Kept indices have finite grid points, unless these are angles. -/
theorem SamplesExactly.isFinite_point (h : p.SamplesExactly kept) (hfamily : p.family ≠ .polar)
    {i : ℕ} (hi : i < p.domain.sampleCount) (hkept : kept i) :
    (p.domain.point i).isFinite = true := by
  obtain ⟨n, indices, hcount, -, hmem, hsamples⟩ := h
  rw [Domain.sampleCount, hcount, Option.getD_some] at hi
  obtain ⟨k, hk, rfl⟩ := List.mem_iff_getElem.mp ((hmem i).mpr ⟨hi, hkept⟩)
  have hk' : k < p.series.samples.length := hsamples.length_eq ▸ hk
  have hmeets := (List.forall₂_iff_get.mp hsamples).2 k hk hk'
  have hfinite := isFinite_of_mem_samples (List.get_mem p.series.samples ⟨k, hk'⟩)
  exact hmeets.x_eq hfamily ▸ hfinite.x

/-- Where the points of a grid overflow, an expression without the variable can be evaluated and
leaves no sample: here at the last of four points. And where the points are too many for a count,
nothing is sampled in this way. -/
theorem not_samplesExactly_evaluated :
    (∃ p e, (ReadingRules.standard.read
        "expr:5:0,1.7976931348623157e308,5.9923104501e307").toOption = some p ∧
      p.curve = .expression e ∧
        ¬ p.SamplesExactly fun i => ∃ y, e.evaluate (p.domain.point i) = .ok y) ∧
    ∀ kept, ¬ SamplesExactly ⟨.linear 1 0, ⟨0, 1e300, 1e-300⟩, "y=x"⟩ kept := by
  constructor
  · refine ⟨⟨.expression ⟨"5", .number ⟨5, 0⟩ ⟨0, 1⟩⟩,
      ⟨0, 1.7976931348623157e308, 5.9923104501e307⟩,
      "expr:5:0,1.7976931348623157e308,5.9923104501e307"⟩, _, by decide +kernel, rfl, fun h => ?_⟩
    have hfinite := h.isFinite_point (i := 3) (by decide) (by decide +kernel) ⟨5, rfl⟩
    exact absurd hfinite (by decide +kernel)
  · rintro kept ⟨n, indices, hcount, -⟩
    have hnone : Domain.sampleCount? ⟨0, 1e300, 1e-300⟩ = none := by decide +kernel
    cases hnone.symm.trans hcount

end Plot

/-! ### Mapping against linear axes -/

/-- Linear axes show all finite samples. -/
theorem AxisScales.shows_of_isFinite {scales : AxisScales} (hx : scales.x = .linear)
    (hy : scales.y = .linear) {s : Sample} (h : s.IsFinite) : scales.shows s = true := by
  simp [shows, hx, hy, AxisScale.toPlot?, h.x, h.y]

/-- Of finite samples all survive there. -/
theorem AxisScales.survivors_of_isFinite {scales : AxisScales} (hx : scales.x = .linear)
    (hy : scales.y = .linear) {series : List (List Sample)}
    (h : ∀ samples ∈ series, ∀ s ∈ samples, s.IsFinite) : scales.survivors series = series := by
  refine (List.map_congr_left fun samples hsamples => ?_).trans (List.map_id series)
  exact List.filter_eq_self.mpr fun s hs => shows_of_isFinite hx hy (h samples hsamples s hs)

namespace FamilyGroup

variable {o : DrawingOptions} {plots : List Plot} {groups : List FamilyGroup}

/-- The series of the plots are those of the groups. -/
theorem mem_series_of_ofPlots (h : ofPlots o plots = .ok groups) :
    (∀ p ∈ plots, ∃ g ∈ groups, p.series ∈ g.series) ∧
      ∀ g ∈ groups, ∀ s ∈ g.series, ∃ p ∈ plots, p.series = s := by
  obtain ⟨-, -, hmembers⟩ := ofSeries_eq_ok h
  have hpartition := partitions_membersOf (plots.map Plot.series)
  rw [hmembers] at hpartition
  have hseries : ∀ g ∈ groups,
      g.series = (plots.map Plot.series).filter fun s => s.family == g.family := fun g hg =>
    hpartition.members (g.family, g.series) (List.mem_map_of_mem hg)
  constructor
  · intro p hp
    have hfamily := hpartition.total p.series (List.mem_map_of_mem hp)
    rw [List.map_map] at hfamily
    obtain ⟨g, hg, hgFamily⟩ := List.mem_map.mp hfamily
    refine ⟨g, hg, ?_⟩
    rw [hseries g hg, List.mem_filter]
    exact ⟨List.mem_map_of_mem hp, beq_iff_eq.mpr hgFamily.symm⟩
  · intro g hg s hs
    rw [hseries g hg, List.mem_filter] at hs
    exact List.mem_map.mp hs.1

/-- Against linear axes a group is mapped with all samples. -/
theorem samples_of_ofPlots (hx : o.xScale = .linear) (hy : o.yScale = .linear)
    (h : ofPlots o plots = .ok groups) {g : FamilyGroup} (hg : g ∈ groups) :
    (g.mapping.series.map fun row => row.map MappedSample.sample) =
      g.series.map Series.samples := by
  obtain ⟨hfault, hmade, -⟩ := ofSeries_eq_ok h
  have hmapped : o.canvas.map o.scales (g.series.map Series.samples) = .ok g.mapping := by
    rw [Canvas.map, hfault]
    exact (ofMembers_eq_ok (hmade g hg)).2
  have hfinite : ∀ samples ∈ g.series.map Series.samples, ∀ s ∈ samples, s.IsFinite := by
    intro samples hsamples s hs
    obtain ⟨series, hseries, rfl⟩ := List.mem_map.mp hsamples
    obtain ⟨p, -, rfl⟩ := (mem_series_of_ofPlots h).2 g hg series hseries
    exact Plot.isFinite_of_mem_samples hs
  rw [((Canvas.map_eq_ok_iff hfault).mp hmapped).2, Canvas.samples_fitted]
  exact AxisScales.survivors_of_isFinite hx hy hfinite

end FamilyGroup

namespace Plot

/-- A plot whose grid points are counted is sampled at exactly those where its curve is finite; an
expression is at the finite ones where it can be evaluated, and these are all where it can be, if the
variable occurs in it. Every plot that is read with a cap of less than 64 binary digits has such a
grid. Grouping and mapping plots against linear axes lose no sample of any plot. -/
theorem samplesExactly_and_mapped :
    (∀ p : Plot, p.domain.sampleCount?.isSome = true →
      (p.SamplesExactly fun i => ∃ s, p.curve.Meets (p.domain.point i) s ∧ s.IsFinite) ∧
        (∀ s ∈ p.series.samples, s.IsFinite) ∧
        (p.family ≠ .polar → ∀ i s, p.curve.Meets (p.domain.point i) s → s.x = p.domain.point i) ∧
        ∀ e, p.curve = .expression e →
          (p.SamplesExactly fun i => (p.domain.point i).isFinite = true ∧
            ∃ y, e.evaluate (p.domain.point i) = .ok y) ∧
          (e.isConstant = false →
            p.SamplesExactly fun i => ∃ y, e.evaluate (p.domain.point i) = .ok y)) ∧
    (∀ (rules : ReadingRules) (formula : String) (p : Plot), rules.maxSamples < 2 ^ 63 →
      rules.read formula = .ok p → p.domain.sampleCount?.isSome = true) ∧
    ∀ (o : DrawingOptions) (plots : List Plot) (groups : List FamilyGroup),
      o.xScale = .linear → o.yScale = .linear → FamilyGroup.ofPlots o plots = .ok groups →
        (∀ p ∈ plots, ∃ g ∈ groups, p.series ∈ g.series) ∧
          ∀ g ∈ groups, (g.mapping.series.map fun row => row.map MappedSample.sample) =
            g.series.map Series.samples ∧
              g.mapping.series.map List.length = g.series.map fun s => s.samples.length := by
  refine ⟨fun p hcounted => ⟨samplesExactly_finite hcounted, fun s => isFinite_of_mem_samples,
    fun hfamily i s h => h.x_eq hfamily, fun e he => ⟨samplesExactly_expression hcounted he,
      fun hvariable => (samplesExactly_expression hcounted he).congr fun i => ?_⟩⟩,
    fun rules formula p hmax hread => ?_, fun o plots groups hx hy h =>
    ⟨(FamilyGroup.mem_series_of_ofPlots h).1, fun g hg => ?_⟩⟩
  · exact and_iff_right_of_imp fun ⟨y, hy⟩ => Expression.isFinite_of_evaluate hvariable hy
  · obtain ⟨d, hd⟩ := ReadingRules.exists_domain_eq hread
    rw [hd]
    exact d.isSome_sampleCount?_normalized p.family hmax
  · have hsamples := FamilyGroup.samples_of_ofPlots hx hy h hg
    refine ⟨hsamples, ?_⟩
    have hlengths := congrArg (List.map List.length) hsamples
    simpa [List.map_map, Function.comp_def] using hlengths

/-- A line, a parabola that overflows at the last of three points, and an expression that is read. -/
theorem samplesExactly_and_mapped_overflowing :
    let line : Plot := ⟨.linear 2 1, ⟨0, 2, 1⟩, "2x+1"⟩
    let parabola : Plot := ⟨.quadratic 1e300 0 0, ⟨0, 2e4, 1e4⟩, "1e300x^2"⟩
    (parabola.SamplesExactly fun i =>
      ∃ s, parabola.curve.Meets (parabola.domain.point i) s ∧ s.IsFinite) ∧
    (∃ p, ReadingRules.standard.read "expr:sqrt(x):-1,1,1" = .ok p ∧
      p.domain.sampleCount?.isSome = true) ∧
    ∃ groups, FamilyGroup.ofPlots .standard [line, parabola] = .ok groups ∧
      groups.map (fun g => g.mapping.series.map List.length) = [[3], [2]] ∧
        ∀ g ∈ groups,
          g.mapping.series.map List.length = g.series.map fun s => s.samples.length := by
  intro line parabola
  obtain ⟨hsampled, hcounted, hmapped⟩ := samplesExactly_and_mapped
  refine ⟨(hsampled parabola (by decide +kernel)).1, ?_, ?_⟩
  · have hread : (ReadingRules.standard.read "expr:sqrt(x):-1,1,1").isOk = true := by
      decide +kernel
    cases hp : ReadingRules.standard.read "expr:sqrt(x):-1,1,1" with
    | error e =>
      rw [hp] at hread
      cases hread
    | ok p => exact ⟨p, rfl, hcounted _ _ p (by decide) hp⟩
  · have hlengths : (FamilyGroup.ofPlots .standard [line, parabola]).toOption.map
        (fun groups => groups.map fun g => g.mapping.series.map List.length) =
          some [[3], [2]] := by
      decide +kernel
    cases hgroups : FamilyGroup.ofPlots .standard [line, parabola] with
    | error e => rw [hgroups] at hlengths; cases hlengths
    | ok groups =>
      rw [hgroups] at hlengths
      have hkept := (hmapped .standard _ groups rfl rfl hgroups).2
      exact ⟨groups, rfl, Option.some.inj hlengths, fun g hg => (hkept g hg).2⟩

end Plot

end CurvePlot
