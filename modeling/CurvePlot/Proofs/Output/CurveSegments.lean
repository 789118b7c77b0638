import CurvePlot.Proofs.Formula.GridSpacing
import CurvePlot.Proofs.Output.SegmentStarts
import CurvePlot.Proofs.Plot.SampledGrid

/-!
# Where a curve is cut

A curve is cut between samples that are more than one and a half times the smallest step apart. The
indices of the grid are not known there, and the smallest step is one between samples: where grid
points without a sample lie between any two of them, it is no step of the grid, and the curve is
drawn across the gaps of the smallest width.

A plot is cut at all its gaps just when, for every one, two neighbouring points of the grid have
samples and are closer by that factor (`Plot.Drawn.unbridged_iff`). On a steady grid all neighbours
are, so that it is enough if there are any (`Plot.Drawn.unbridged_iff_and_steady`).
-/

namespace CurvePlot

open Double

/-! ### Lists -/

/-- What holds of neighbours within the pieces of a list holds of those neighbours in the list
between which it is not cut. -/
theorem isChain_splitBy_iff {α : Type} {r : α → α → Bool} {Q : α → α → Prop} {l : List α} :
    (∀ piece ∈ l.splitBy r, piece.IsChain Q) ↔ l.IsChain fun a b => r a b = true → Q a b := by
  have hpieces := List.isChain_flatten (R := fun a b => r a b = true → Q a b)
    (List.nil_notMem_splitBy r l)
  have hcuts : (l.splitBy r).IsChain fun front back =>
      ∀ a ∈ front.getLast?, ∀ b ∈ back.head?, r a b = true → Q a b := by
    refine (List.isChain_getLast_head_splitBy r l).imp ?_
    rintro front back ⟨hfront, hback, hcut⟩ a ha b hb hr
    rw [List.getLast?_eq_some_getLast hfront, Option.mem_some] at ha
    rw [List.head?_eq_some_head hback, Option.mem_some] at hb
    rw [ha, hb, hr] at hcut
    cases hcut
  rw [List.flatten_splitBy, and_iff_left hcuts] at hpieces
  rw [hpieces]
  refine forall₂_congr fun piece hpiece => ?_
  have hlinked := List.isChain_iff_getElem.mp (List.isChain_of_mem_splitBy hpiece)
  rw [List.isChain_iff_getElem, List.isChain_iff_getElem]
  exact forall₂_congr fun n hn => ⟨fun h _ => h, fun h => h (hlinked n hn)⟩

/-- Neighbours in an increasing list are the entries with no other one between them. -/
theorem exists_getElem_iff_of_pairwise {l : List ℕ} (hl : l.Pairwise (· < ·)) {i j : ℕ} :
    (∃ n, ∃ hn : n + 1 < l.length, l[n] = i ∧ l[n + 1] = j) ↔
      i ∈ l ∧ j ∈ l ∧ i < j ∧ ∀ k ∈ l, i < k → ¬k < j := by
  have hlt := hl.sortedLT
  constructor
  · rintro ⟨n, hn, rfl, rfl⟩
    refine ⟨List.getElem_mem _, List.getElem_mem _,
      hlt.getElem_lt_getElem_iff.mpr (Nat.lt_succ_self n), fun k hk hafter hbefore => ?_⟩
    obtain ⟨m, hm, rfl⟩ := List.mem_iff_getElem.mp hk
    have hafter := hlt.getElem_lt_getElem_iff.mp hafter
    have hbefore := hlt.getElem_lt_getElem_iff.mp hbefore
    omega
  · rintro ⟨hi, hj, hij, hbetween⟩
    obtain ⟨n, hn, rfl⟩ := List.mem_iff_getElem.mp hi
    obtain ⟨m, hm, rfl⟩ := List.mem_iff_getElem.mp hj
    have hnm := hlt.getElem_lt_getElem_iff.mp hij
    have hnext : ¬l[n + 1] < l[m] :=
      hbetween _ (List.getElem_mem _) (hlt.getElem_lt_getElem_iff.mpr (Nat.lt_succ_self n))
    have hmn : ¬n + 1 < m := fun h => hnext (hlt.getElem_lt_getElem_iff.mpr h)
    obtain rfl : m = n + 1 := by omega
    exact ⟨n, hm, rfl, rfl⟩

/-! ### One and a half times a double -/

namespace Double

/-- One and a half times a positive double is not below it. -/
theorem not_mul_lt_self {x : Float} (hx : x.isFinite = true) (hpos : 0 < value x) :
    ¬1.5 * x < x := by
  obtain ⟨hhalves, hvalue⟩ := value_three_halves
  have hproduct := roundsTo_mul hhalves hx
  rw [hvalue] at hproduct
  by_cases hfinite : (1.5 * x).isFinite = true
  · have hle := (roundsTo_value hx).value_le hproduct (by linarith) hx hfinite
    rw [lt_iff hfinite hx]
    exact not_lt.mpr hle
  · exact (hproduct.isInfinity (by linarith) hfinite).not_lt x

/-- What is above one and a half times a double is above so much of every lesser one. -/
theorem mul_lt_of_le {x y z : Float} (hx : x.isFinite = true) (hy : y.isFinite = true)
    (hz : z.isFinite = true) (hpos : 0 < value x) (hle : value x ≤ value y) (hlt : 1.5 * y < z) :
    1.5 * x < z := by
  obtain ⟨hhalves, hvalue⟩ := value_three_halves
  have hless := roundsTo_mul hhalves hx
  have hgreater := roundsTo_mul hhalves hy
  rw [hvalue] at hless hgreater
  have hfinite : (1.5 * y).isFinite = true := by
    by_contra hinfinite
    exact (hgreater.isInfinity (by linarith) hinfinite).not_lt z hlt
  have hfinite' : (1.5 * x).isFinite = true := by
    refine hless.isFinite_of_abs_le hgreater ?_ hfinite
    rw [abs_of_pos (by linarith), abs_of_pos (by linarith)]
    linarith
  rw [lt_iff hfinite' hz]
  exact (hless.value_le hgreater (by linarith) hfinite' hfinite).trans_lt
    ((lt_iff hfinite hz).mp hlt)

end Double

/-! ### Gaps -/

namespace Plot

/-- The grid point of the index leaves a sample. -/
def Leaves (p : Plot) (i : ℕ) : Prop :=
  i < p.domain.sampleCount ∧ ∃ s, p.curve.Meets (p.domain.point i) s ∧ s.IsFinite

/-- Both grid points leave samples, and those between them leave none. -/
structure Next (p : Plot) (i j : ℕ) : Prop where
  /-- The first point leaves a sample. -/
  first : p.Leaves i
  /-- The second one does. -/
  second : p.Leaves j
  /-- They are in order. -/
  lt : i < j
  /-- No point between them does. -/
  between : ∀ k, i < k → k < j → ¬p.Leaves k

/-- There are grid points without a sample, and only such points, between two with samples. -/
def Gap (p : Plot) (i j : ℕ) : Prop :=
  p.Next i j ∧ i + 1 < j

/-- The samples come from neighbouring points of the grid. -/
def Neighbours (p : Plot) (a b : MappedSample) : Prop :=
  ∃ i, i + 1 < p.domain.sampleCount ∧ p.curve.Meets (p.domain.point i) a.sample ∧
    p.curve.Meets (p.domain.point (i + 1)) b.sample

/-- Within the pieces of a curve, samples that follow each other come from neighbouring points. -/
def Unbridged (p : Plot) (pieces : List (List MappedSample)) : Prop :=
  ∀ piece ∈ pieces, piece.IsChain p.Neighbours

/-- The samples of a plot, whose points are values of `x` in strict order, as they are mapped against
linear axes, be it alone or together with others. -/
structure Drawn (p : Plot) (row : List MappedSample) : Prop where
  /-- The points are no angles. -/
  family : p.family ≠ .polar
  /-- The points are in strict order. -/
  increasing : ∀ i j, i < j → j < p.domain.sampleCount → p.domain.point i < p.domain.point j
  /-- The row is one of a mapping. -/
  mapped : ∃ (c : Canvas) (scales : AxisScales) (series : List (List Sample)) (m : Mapping) (k : ℕ),
    scales.x = .linear ∧ scales.y = .linear ∧ c.map scales series = .ok m ∧
      series[k]? = some p.series.samples ∧ m.series[k]? = some row

/-- The indices of the grid points that the samples of a row come from. -/
structure Traces (p : Plot) (row : List MappedSample) (indices : List ℕ) : Prop where
  /-- The indices are in strict order. -/
  ordered : indices.Pairwise (· < ·)
  /-- They are those that leave samples. -/
  mem_iff : ∀ i, i ∈ indices ↔ p.Leaves i
  /-- There is one for each sample. -/
  length_eq : indices.length = row.length
  /-- The sample comes from it. -/
  meets : ∀ n (hn : n < indices.length) (hn' : n < row.length),
    p.curve.Meets (p.domain.point indices[n]) row[n].sample

variable {p : Plot} {row : List MappedSample} {indices : List ℕ} {i j : ℕ}

/-- Whether a point leaves a sample can be computed. -/
theorem leaves_iff :
    p.Leaves i ↔ i < p.domain.sampleCount ∧ (p.curve.sample? (p.domain.point i)).isSome = true := by
  rw [Leaves, Option.isSome_iff_exists]
  exact and_congr_right' (exists_congr fun s => Curve.sample?_eq_some_iff.symm)

instance (p : Plot) (i : ℕ) : Decidable (p.Leaves i) :=
  decidable_of_iff _ leaves_iff.symm

/-- Between neighbouring points there are none. -/
theorem next_succ (hfirst : p.Leaves i) (hsecond : p.Leaves (i + 1)) : p.Next i (i + 1) :=
  ⟨hfirst, hsecond, Nat.lt_succ_self i, fun _ hafter hbefore _ => absurd hbefore (by omega)⟩

/-- Points that follow each other without being neighbours leave a gap. -/
theorem Next.gap (h : p.Next i j) (hne : j ≠ i + 1) : p.Gap i j :=
  ⟨h, by have := h.lt; omega⟩

namespace Traces

/-- Samples that follow each other come from points that do. -/
theorem next_iff (h : p.Traces row indices) :
    p.Next i j ↔ ∃ n, ∃ hn : n + 1 < indices.length, indices[n] = i ∧ indices[n + 1] = j := by
  rw [exists_getElem_iff_of_pairwise h.ordered, h.mem_iff, h.mem_iff]
  constructor
  · intro hnext
    exact ⟨hnext.first, hnext.second, hnext.lt, fun k hk hafter hbefore =>
      hnext.between k hafter hbefore ((h.mem_iff k).mp hk)⟩
  · rintro ⟨hi, hj, hij, hbetween⟩
    exact ⟨hi, hj, hij, fun k hafter hbefore hk =>
      hbetween k ((h.mem_iff k).mpr hk) hafter hbefore⟩

end Traces

namespace Drawn

/-- Linear axes keep every sample. -/
theorem map_sample (h : p.Drawn row) : row.map MappedSample.sample = p.series.samples := by
  obtain ⟨c, scales, series, m, k, hx, hy, hm, hk, hrow⟩ := h.mapped
  have hsamples := congrArg (fun rows => rows[k]?) (Canvas.samples_fitted c scales series)
  rw [← (Canvas.fitted_of_map hm).2] at hsamples
  simp only [AxisScales.survivors, List.getElem?_map, hk, hrow, Option.map_some,
    Option.some.injEq] at hsamples
  rw [hsamples, List.filter_eq_self]
  exact fun s hs => AxisScales.shows_of_isFinite hx hy (isFinite_of_mem_samples hs)

/-- The row comes from the grid points that leave samples. -/
theorem exists_traces (h : p.Drawn row) : ∃ indices, p.Traces row indices := by
  obtain ⟨indices, hordered, hmem, hmeets⟩ := p.exists_sampled_indices
  rw [← h.map_sample, List.forall₂_map_right_iff, List.forall₂_iff_get] at hmeets
  exact ⟨indices, hordered, hmem, hmeets.1, fun n hn hn' => hmeets.2 n hn hn'⟩

/-- All distances between samples are finite. -/
theorem isFinite_sub (h : p.Drawn row) {a b : MappedSample} (ha : a ∈ row) (hb : b ∈ row) :
    (b.x - a.x).isFinite = true := by
  have hsamples := h.map_sample
  obtain ⟨c, scales, series, m, k, hx, hy, hm, hk, hrow⟩ := h.mapped
  have hspan := (Canvas.fitted_of_map hm).1 .x
  have hcovers := Extent.covers_fit (scales.isFinite_values .x series) hspan
  have hvalue : ∀ s ∈ row, s.x ∈ scales.values .x series := by
    intro s hs
    have hmem : s.sample ∈ p.series.samples := hsamples ▸ List.mem_map_of_mem hs
    have hfinite := isFinite_of_mem_samples hmem
    have hshows := AxisScales.shows_of_isFinite hx hy hfinite
    rw [AxisScales.values, List.mem_filterMap]
    refine ⟨s.sample, List.mem_flatten.mpr ⟨_, List.mem_map_of_mem (List.mem_of_getElem? hk),
      List.mem_filter.mpr ⟨hmem, hshows⟩⟩, ?_⟩
    simp [AxisScales.scale, hx, AxisScale.toPlot?, Sample.coordinate, MappedSample.sample,
      show s.x.isFinite = true from hfinite.x]
  obtain ⟨haFinite, haLow, haHigh⟩ := hcovers.shows _ (hvalue a ha)
  obtain ⟨hbFinite, hbLow, hbHigh⟩ := hcovers.shows _ (hvalue b hb)
  refine (roundsTo_sub hbFinite haFinite).isFinite_of_abs_le
    (roundsTo_sub hcovers.isFinite_max hcovers.isFinite_min) ?_ hspan
  rw [abs_le, abs_of_nonneg (by linarith)]
  constructor <;> linarith

/-- Samples that follow each other are as far apart as the points that they come from. -/
theorem sub_eq (h : p.Drawn row) (htraces : p.Traces row indices) {n : ℕ}
    (hn : n + 1 < indices.length) (hn' : n + 1 < row.length) :
    row[n + 1].x - row[n].x = p.domain.point indices[n + 1] - p.domain.point indices[n] := by
  have hfirst : row[n].x = p.domain.point indices[n] :=
    (htraces.meets n (by omega) (by omega)).x_eq h.family
  have hsecond : row[n + 1].x = p.domain.point indices[n + 1] :=
    (htraces.meets (n + 1) hn hn').x_eq h.family
  rw [hfirst, hsecond]

/-- The distance of points that follow each other is finite and positive. -/
theorem sub_of_next (h : p.Drawn row) (hij : p.Next i j) :
    (p.domain.point j - p.domain.point i).isFinite = true ∧
      0 < value (p.domain.point j - p.domain.point i) := by
  obtain ⟨indices, htraces⟩ := h.exists_traces
  obtain ⟨n, hn, rfl, rfl⟩ := htraces.next_iff.mp hij
  have hn' : n + 1 < row.length := htraces.length_eq ▸ hn
  have hfinite := h.isFinite_sub (List.getElem_mem (by omega : n < row.length))
    (List.getElem_mem hn')
  rw [h.sub_eq htraces hn hn'] at hfinite
  obtain ⟨hj, hi⟩ := isFinite_of_sub hfinite
  have hlt := (lt_iff hi hj).mp (h.increasing _ _ hij.lt hij.second.1)
  exact ⟨hfinite, pos_of_sub hj hi hlt hfinite⟩

/-- The steps of the row are those between points that follow each other. -/
theorem isStep_iff (h : p.Drawn row) {v : Float} :
    IsStep row v ↔ ∃ i j, p.Next i j ∧ v = p.domain.point j - p.domain.point i := by
  obtain ⟨indices, htraces⟩ := h.exists_traces
  have hlength := htraces.length_eq
  constructor
  · rintro ⟨n, hn, rfl⟩
    exact ⟨_, _, htraces.next_iff.mpr ⟨n, hlength ▸ hn, rfl, rfl⟩,
      h.sub_eq htraces (hlength ▸ hn) hn⟩
  · rintro ⟨i, j, hij, rfl⟩
    obtain ⟨n, hn, rfl, rfl⟩ := htraces.next_iff.mp hij
    exact ⟨n, hlength ▸ hn, (h.sub_eq htraces hn (hlength ▸ hn)).symm⟩

/-- The smallest step is the least distance of points that follow each other. -/
theorem smallestStep_of_next (h : p.Drawn row) (hij : p.Next i j) :
    ∃ k l, p.Next k l ∧ smallestStep row = p.domain.point l - p.domain.point k ∧
      ∀ i j, p.Next i j →
        value (smallestStep row) ≤ value (p.domain.point j - p.domain.point i) := by
  have hpos : ∀ i j, p.Next i j → 0 < p.domain.point j - p.domain.point i := by
    intro i j hnext
    obtain ⟨hfinite, hpos⟩ := h.sub_of_next hnext
    exact (lt_iff value_zero.1 hfinite).mpr (value_zero.2.trans_lt hpos)
  have hleast := isSmallestStep_smallestStep (h.isStep_iff.mpr ⟨i, j, hij, rfl⟩) (hpos i j hij)
  obtain ⟨k, l, hkl, heq⟩ := h.isStep_iff.mp hleast.isStep
  refine ⟨k, l, hkl, heq, fun i j hnext => ?_⟩
  rw [← le_iff (heq ▸ (h.sub_of_next hkl).1) (h.sub_of_next hnext).1]
  exact hleast.le _ (h.isStep_iff.mpr ⟨i, j, hnext, rfl⟩) (hpos i j hnext)

/-- The point that a sample comes from has one index. -/
theorem index_eq_of_meets (h : p.Drawn row) {a : MappedSample} (ha : a ∈ row)
    (hi : p.curve.Meets (p.domain.point i) a.sample) (hj : p.curve.Meets (p.domain.point j) a.sample)
    (hiCount : i < p.domain.sampleCount) (hjCount : j < p.domain.sampleCount) : i = j := by
  have hfinite : (p.domain.point i).isFinite = true := by
    rw [← hi.x_eq h.family]
    exact (isFinite_of_mem_samples (h.map_sample ▸ List.mem_map_of_mem ha)).x
  have heq : p.domain.point i = p.domain.point j := by rw [← hi.x_eq h.family, ← hj.x_eq h.family]
  have hirreflexive : ¬p.domain.point i < p.domain.point i := by
    rw [lt_iff hfinite hfinite]
    exact lt_irrefl _
  rcases lt_trichotomy i j with hlt | rfl | hlt
  · exact absurd (h.increasing i j hlt hjCount) (heq ▸ hirreflexive)
  · rfl
  · exact absurd (h.increasing j i hlt hiCount) (heq ▸ hirreflexive)

/-- The curve is cut at a gap just when this is wider than the limit. -/
theorem unbridged_iff_limit (h : p.Drawn row) :
    p.Unbridged (segments row) ↔ ∀ i j, p.Gap i j →
      1.5 * smallestStep row < p.domain.point j - p.domain.point i := by
  obtain ⟨indices, htraces⟩ := h.exists_traces
  have hlength := htraces.length_eq
  rw [Unbridged, segments, isChain_splitBy_iff, List.isChain_iff_getElem]
  constructor
  · rintro hchain _ _ ⟨hnext, hgap⟩
    obtain ⟨n, hn, rfl, rfl⟩ := htraces.next_iff.mp hnext
    by_contra hclose
    have hlinked : (!decide (row[n + 1].x - row[n].x > 1.5 * smallestStep row)) = true := by
      rw [h.sub_eq htraces (by omega) (by omega)]
      simpa using hclose
    obtain ⟨k, hk, hfirst, hsecond⟩ := hchain n (by omega) hlinked
    have hi := h.index_eq_of_meets (List.getElem_mem _) (htraces.meets n (by omega) (by omega))
      hfirst hnext.first.1 (by omega)
    have hj := h.index_eq_of_meets (List.getElem_mem _)
      (htraces.meets (n + 1) (by omega) (by omega)) hsecond hnext.second.1 hk
    omega
  · intro hgaps n hn hlinked
    -- Samples that are not cut apart leave no gap, so that their points are neighbours.
    have hnext : p.Next indices[n] indices[n + 1] :=
      htraces.next_iff.mpr ⟨n, by omega, rfl, rfl⟩
    have hadjacent : indices[n + 1] = indices[n] + 1 := by
      by_contra hne
      have hcut := hgaps _ _ (hnext.gap hne)
      rw [← h.sub_eq htraces (by omega) hn] at hcut
      simp [hcut] at hlinked
    refine ⟨indices[n], hadjacent ▸ hnext.second.1, htraces.meets n (by omega) (by omega), ?_⟩
    rw [← hadjacent]
    exact htraces.meets (n + 1) (by omega) (by omega)

/-- The curve is cut at all gaps just when, for each, there are neighbouring points with samples
that are closer by a factor of one and a half. -/
theorem unbridged_iff (h : p.Drawn row) :
    p.Unbridged (segments row) ↔ ∀ i j, p.Gap i j → ∃ n, p.Leaves n ∧ p.Leaves (n + 1) ∧
      1.5 * (p.domain.point (n + 1) - p.domain.point n) <
        p.domain.point j - p.domain.point i := by
  rw [h.unbridged_iff_limit]
  constructor
  · intro hgaps i j hgap
    obtain ⟨k, l, hkl, hsmallest, -⟩ := h.smallestStep_of_next hgap.1
    obtain ⟨hfinite, hpos⟩ := h.sub_of_next hkl
    -- The smallest step is no gap: it would have to be wider than one and a half times itself.
    have hadjacent : l = k + 1 := by
      by_contra hne
      have hwide := hgaps k l (hkl.gap hne)
      rw [hsmallest] at hwide
      exact not_mul_lt_self hfinite hpos hwide
    subst hadjacent
    exact ⟨k, hkl.first, hkl.second, hsmallest ▸ hgaps i j hgap⟩
  · intro hnear i j hgap
    obtain ⟨n, hfirst, hsecond, hlt⟩ := hnear i j hgap
    have hnext := next_succ hfirst hsecond
    obtain ⟨k, l, hkl, hsmallest, hle⟩ := h.smallestStep_of_next hgap.1
    obtain ⟨hfinite, hpos⟩ := h.sub_of_next hkl
    rw [← hsmallest] at hfinite hpos
    exact mul_lt_of_le hfinite (h.sub_of_next hnext).1 (h.sub_of_next hgap.1).1 hpos
      (hle n (n + 1) hnext) hlt

end Drawn

/-- A curve, drawn against linear axes over points in strict order, is cut at all gaps just when, for
each of these, two neighbouring points have samples and are closer by a factor of one and a half. On
a steady grid this means that there is no gap, or that any two neighbouring points have samples. -/
theorem Drawn.unbridged_iff_and_steady (h : p.Drawn row) :
    (p.Unbridged (segments row) ↔ ∀ i j, p.Gap i j → ∃ n, p.Leaves n ∧ p.Leaves (n + 1) ∧
      1.5 * (p.domain.point (n + 1) - p.domain.point n) <
        p.domain.point j - p.domain.point i) ∧
    (p.domain.Steady → (p.Unbridged (segments row) ↔
      (∀ i j, ¬p.Gap i j) ∨ ∃ n, p.Leaves n ∧ p.Leaves (n + 1))) := by
  refine ⟨h.unbridged_iff, fun hsteady => h.unbridged_iff.trans ⟨fun hnear => ?_, ?_⟩⟩
  · by_cases hgap : ∃ i j, p.Gap i j
    · obtain ⟨i, j, hgap⟩ := hgap
      obtain ⟨n, hfirst, hsecond, -⟩ := hnear i j hgap
      exact Or.inr ⟨n, hfirst, hsecond⟩
    · simp only [not_exists] at hgap
      exact Or.inl hgap
  · rintro (hnone | ⟨n, hfirst, hsecond⟩) i j hgap
    · exact absurd hgap (hnone i j)
    · obtain ⟨hfinite, hpos⟩ := h.sub_of_next (next_succ hfirst hsecond)
      exact ⟨n, hfirst, hsecond, hsteady.lt_sub hsecond.1 hgap.2 hgap.1.second.1 hfinite hpos.le
        (h.sub_of_next hgap.1).1⟩

/-- A plot that is mapped alone is drawn. -/
theorem exists_drawn {c : Canvas} (hfamily : p.family ≠ .polar)
    (hincreasing : ∀ j < p.domain.sampleCount, ∀ i < j, p.domain.point i < p.domain.point j)
    (hmap : (c.map ⟨.linear, .linear⟩ [p.series.samples]).isOk = true) : ∃ row, p.Drawn row := by
  cases hm : c.map ⟨.linear, .linear⟩ [p.series.samples] with
  | error e => rw [hm] at hmap; cases hmap
  | ok m =>
    have hlength : m.series.length = 1 := by
      rw [(Canvas.fitted_of_map hm).2]
      rfl
    exact ⟨m.series[0], hfamily, fun i j hij hj => hincreasing j hj i hij,
      c, _, _, m, 0, rfl, rfl, hm, rfl, List.getElem?_eq_getElem (by omega)⟩

/-- Over `-2`, `-1`, `0` and `1` the curve `1/x` is cut at zero. -/
theorem unbridged_iff_and_steady_reciprocal :
    ∃ p row, (ReadingRules.standard.read "expr:1/x:-2,1,1").toOption = some p ∧
      p.Drawn row ∧ p.domain.Steady ∧ p.Gap 1 3 ∧ p.Unbridged (segments row) := by
  let p : Plot := ⟨.expression ⟨"1/x", .binary .div (.number ⟨1, 0⟩ ⟨0, 1⟩) (.var ⟨2, 3⟩) ⟨0, 3⟩⟩,
    ⟨-2, 1, 1⟩, "expr:1/x:-2,1,1"⟩
  have hcount : p.domain.sampleCount? = some 4 := by decide +kernel
  obtain ⟨row, hdrawn⟩ := exists_drawn (p := p) (c := DrawingOptions.standard.canvas) (by decide)
    (by rw [Domain.sampleCount, hcount]; decide +kernel) (by decide +kernel)
  have hsteady : p.domain.Steady := by
    refine ⟨(value_neg value_two.1).1, value_one.1, ?_, ?_, 4, by norm_num, hcount⟩
    · change _ ≤ value 1
      rw [value_one.2]
      exact zpow_le_one_of_nonpos₀ (by norm_num) (by norm_num)
    · change |value (-2)| ≤ 2 ^ 40 * value 1
      rw [(value_neg value_two.1).2, value_two.2, value_one.2]
      norm_num
  have hgap : p.Gap 1 3 := by
    refine ⟨⟨by decide +kernel, by decide +kernel, by decide, fun k hlow hhigh => ?_⟩, by decide⟩
    obtain rfl : k = 2 := by omega
    decide +kernel
  exact ⟨p, row, by decide +kernel, hdrawn, hsteady, hgap,
    (hdrawn.unbridged_iff_and_steady.2 hsteady).mpr
      (Or.inr ⟨0, by decide +kernel, by decide +kernel⟩)⟩

/-- Over `-1`, `0` and `1` it is not: the two samples are drawn as one line across the asymptote. -/
theorem not_unbridged_reciprocal :
    ∃ p row, (ReadingRules.standard.read "expr:1/x:-1,1,1").toOption = some p ∧
      p.Drawn row ∧ p.Gap 0 2 ∧ ¬p.Unbridged (segments row) := by
  let p : Plot := ⟨.expression ⟨"1/x", .binary .div (.number ⟨1, 0⟩ ⟨0, 1⟩) (.var ⟨2, 3⟩) ⟨0, 3⟩⟩,
    ⟨-1, 1, 1⟩, "expr:1/x:-1,1,1"⟩
  have hcount : p.domain.sampleCount = 3 := by decide +kernel
  have hzero : ¬p.Leaves 1 := by decide +kernel
  obtain ⟨row, hdrawn⟩ := exists_drawn (p := p) (c := DrawingOptions.standard.canvas) (by decide)
    (by rw [hcount]; decide +kernel) (by decide +kernel)
  have hgap : p.Gap 0 2 := by
    refine ⟨⟨by decide +kernel, by decide +kernel, by decide, fun k hlow hhigh => ?_⟩, by decide⟩
    obtain rfl : k = 1 := by omega
    exact hzero
  refine ⟨p, row, by decide +kernel, hdrawn, hgap, fun hunbridged => ?_⟩
  obtain ⟨n, hfirst, hsecond, -⟩ := hdrawn.unbridged_iff.mp hunbridged 0 2 hgap
  have hn := hsecond.1
  rw [hcount] at hn
  obtain rfl | rfl : n = 0 ∨ n = 1 := by omega
  · exact hzero hsecond
  · exact hzero hfirst

end Plot

end CurvePlot
