import CurvePlot.Proofs.Output.GroupReading
import CurvePlot.Proofs.Plot.TightExtents
import Mathlib.Data.List.FinRange

/-!
# The order of the series does not change the drawing

The bounds of a fitted extent depend on which values there are, and not on their order, up to the
sign of zeros (`Extent.agrees_fit`). From then on every operation has operands that are equal in
number, so that its exact results are the same and their doubles are equal. Hence series in another
order are mapped to equal places, and the rows of the mapping are in that order
(`Canvas.map_reorder`).
-/

namespace CurvePlot

open Double

/-- The entries of a list in another order. -/
def reorder {α : Type} (xs : List α) (σ : Equiv.Perm (Fin xs.length)) : List α :=
  List.ofFn fun i => xs[σ i]

/-- The order is all that has changed. -/
theorem reorder_perm {α : Type} (xs : List α) (σ : Equiv.Perm (Fin xs.length)) :
    (reorder xs σ).Perm xs := by
  have h := σ.ofFn_comp_perm fun i => xs[i.val]
  rwa [List.ofFn_getElem] at h

namespace Extent

variable {e f : Extent} {values others : List Float} {v : Float}

/-- Both extents are usable, and they are equal in number. -/
structure Agrees (e f : Extent) : Prop where
  /-- The first one is usable. -/
  isUsable_left : e.isUsable = true
  /-- The second one is usable. -/
  isUsable_right : f.isUsable = true
  /-- The lower bounds have the same value. -/
  min_eq : value e.min = value f.min
  /-- The upper bounds have the same value. -/
  max_eq : value e.max = value f.max
  /-- Both are widened or neither is. -/
  widened_eq : e.widened = f.widened

/-- Intervals with bounds among their values have bounds of the same value, if the values are the
same. -/
theorem bounds_eq (he : e.Covers values) (heBounds : e.Attained values) (hf : f.Covers others)
    (hfBounds : f.Attained others) (h : ∀ v, v ∈ values ↔ v ∈ others) :
    value e.min = value f.min ∧ value e.max = value f.max := by
  have hmin := (h _).mp heBounds.min_mem
  have hmax := (h _).mp heBounds.max_mem
  have hmin' := (h _).mpr hfBounds.min_mem
  have hmax' := (h _).mpr hfBounds.max_mem
  exact ⟨le_antisymm (he.shows _ hmin').min_le (hf.shows _ hmin).min_le,
    le_antisymm (hf.shows _ hmax).le_max (he.shows _ hmax').le_max⟩

/-- Bounds of the same value are moved by distances of the same value. -/
theorem pad_eq (he : e.min.isFinite = true) (hf : f.min.isFinite = true)
    (h : value e.min = value f.min) : value e.pad = value f.pad := by
  obtain ⟨heAbs, heValue⟩ := value_abs he
  obtain ⟨hfAbs, hfValue⟩ := value_abs hf
  have htenth : (0.1 : Float).isFinite = true := rfl
  have heProduct := roundsTo_mul heAbs htenth
  have hfProduct := roundsTo_mul hfAbs htenth
  rw [heValue] at heProduct
  rw [hfValue, ← h] at hfProduct
  have heFinite := isFinite_tenth he
  obtain ⟨hfFinite, hvalue⟩ := heProduct.congr hfProduct heFinite
  unfold pad
  rw [(value_greater heFinite value_one.1).2, (value_greater hfFinite value_one.1).2, hvalue]

/-- Widening does not tell bounds of the same value apart: if the length of one widened interval is
finite, the other one has the same bounds in number. -/
theorem widen_congr (heMin : e.min.isFinite = true) (heMax : e.max.isFinite = true)
    (hfMin : f.min.isFinite = true) (hfMax : f.max.isFinite = true)
    (hmin : value e.min = value f.min) (hmax : value e.max = value f.max)
    (hwidened : e.widened = f.widened) (hspan : e.widen.span.isFinite = true) :
    f.widen.min.isFinite = true ∧ f.widen.max.isFinite = true ∧
      value e.widen.min = value f.widen.min ∧ value e.widen.max = value f.widen.max ∧
        e.widen.widened = f.widen.widened := by
  rcases widen_cases heMin heMax with ⟨hne, he⟩ | ⟨heq, he⟩ <;>
    rcases widen_cases hfMin hfMax with ⟨hne', hf⟩ | ⟨heq', hf⟩
  · rw [he, hf]
    exact ⟨hfMin, hfMax, hmin, hmax, hwidened⟩
  · exact absurd (hmin.trans (heq'.trans hmax.symm)) hne
  · exact absurd (hmin.symm.trans (heq.trans hmax)) hne'
  · rw [he] at hspan ⊢
    rw [hf]
    obtain ⟨hup, hdown⟩ := isFinite_of_sub hspan
    have hpad := pad_eq heMin hfMin hmin
    obtain ⟨hePad, -⟩ := pad_nonneg heMin
    obtain ⟨hfPad, -⟩ := pad_nonneg hfMin
    have heLow := roundsTo_sub heMin hePad
    have heHigh := roundsTo_add heMax hePad
    rw [hmin, hpad] at heLow
    rw [hmax, hpad] at heHigh
    obtain ⟨hlow, hlowValue⟩ := heLow.congr (roundsTo_sub hfMin hfPad) hdown
    obtain ⟨hhigh, hhighValue⟩ := heHigh.congr (roundsTo_add hfMax hfPad) hup
    exact ⟨hlow, hhigh, hlowValue.symm, hhighValue.symm, rfl⟩

/-- Bounds of the same value have distances of the same value, finite or not. -/
theorem span_congr (heMin : e.min.isFinite = true) (heMax : e.max.isFinite = true)
    (hfMin : f.min.isFinite = true) (hfMax : f.max.isFinite = true)
    (hmin : value e.min = value f.min) (hmax : value e.max = value f.max)
    (hspan : e.span.isFinite = true) : f.span.isFinite = true ∧ value f.span = value e.span := by
  have he := roundsTo_sub heMax heMin
  rw [hmin, hmax] at he
  exact he.congr (roundsTo_sub hfMax hfMin) hspan

/-- Extents that are fitted to the same values, in any order, are equal in number, if the length of
one of them is finite. -/
theorem agrees_fit (hfinite : ∀ v ∈ values, v.isFinite = true)
    (h : ∀ v, v ∈ values ↔ v ∈ others) (hspan : (fit values).span.isFinite = true) :
    (fit values).Agrees (fit others) := by
  have hothers : ∀ v ∈ others, v.isFinite = true := fun v hv => hfinite v ((h v).mpr hv)
  have husable := (isUsable_fit hfinite).trans hspan
  rcases fit_cases hfinite with ⟨rfl, hfit⟩ | ⟨e, -, hfit, he, heBounds⟩
  · obtain rfl : others = [] := List.eq_nil_iff_forall_not_mem.mpr fun v hv => by
      simpa using (h v).mpr hv
    exact ⟨husable, husable, rfl, rfl, rfl⟩
  · rcases fit_cases hothers with ⟨rfl, -⟩ | ⟨f, -, hfit', hf, hfBounds⟩
    · exact absurd ((h _).mp heBounds.min_mem) (by simp)
    · obtain ⟨hmin, hmax⟩ := bounds_eq he heBounds hf hfBounds h
      rw [hfit] at hspan husable
      obtain ⟨heHigh, heLow⟩ := isFinite_of_sub hspan
      obtain ⟨hlow, hhigh, hlowValue, hhighValue, hwidened⟩ :=
        widen_congr he.isFinite_min he.isFinite_max hf.isFinite_min hf.isFinite_max hmin hmax
          (heBounds.widened_eq.trans hfBounds.widened_eq.symm) hspan
      have hspan' := (span_congr heLow heHigh hlow hhigh hlowValue hhighValue hspan).1
      have husable' := isUsable_fit hothers
      rw [hfit', hspan'] at husable'
      rw [hfit, hfit']
      exact ⟨husable, husable', hlowValue, hhighValue, hwidened⟩

/-- A value has fractions of the same value in extents that are equal in number. -/
theorem Agrees.fraction_eq (h : e.Agrees f) (he : e.Shows v) (hf : f.Shows v) :
    value (f.fraction v) = value (e.fraction v) := by
  obtain ⟨heMin, heMax, heSpan, hePos⟩ := span_of_isUsable h.isUsable_left
  obtain ⟨hfMin, hfMax, hfSpan, hfPos⟩ := span_of_isUsable h.isUsable_right
  have hspan := (span_congr heMin heMax hfMin hfMax h.min_eq h.max_eq heSpan).2
  have heDistance := (distance_bounds h.isUsable_left he).1
  have hfDistance := (distance_bounds h.isUsable_right hf).1
  have hdistance := roundsTo_sub he.isFinite heMin
  rw [h.min_eq] at hdistance
  have hvalue := (hdistance.congr (roundsTo_sub he.isFinite hfMin) heDistance).2
  have hquotient := roundsTo_div heDistance heSpan hePos.ne'
  rw [← hvalue, ← hspan] at hquotient
  exact (hquotient.congr (roundsTo_div hfDistance hfSpan hfPos.ne')
    (inUnit_fraction h.isUsable_left he).isFinite).2

end Extent

namespace Canvas

variable {c : Canvas}

/-- The measures of a sound drawing are finite, and there is room between its margins. -/
theorem measures_of_fault? (h : c.fault? = none) :
    c.margin.isFinite = true ∧ (c.height - c.margin).isFinite = true ∧
      (c.innerWidth.isFinite = true ∧ 0 ≤ value c.innerWidth) ∧
        c.innerHeight.isFinite = true ∧ 0 ≤ value c.innerHeight := by
  obtain ⟨harea, hroom⟩ : c.hasArea = true ∧ c.hasRoom = true := by
    unfold fault? at h
    split at h
    · cases h
    · next harea =>
      split at h
      · cases h
      · next hroom => exact ⟨by simpa using harea, by simpa using hroom⟩
  simp only [hasArea, Bool.and_eq_true, Bool.not_eq_true', decide_eq_false_iff_not] at harea
  obtain ⟨⟨⟨⟨⟨hwidth, hheight⟩, hmargin⟩, -⟩, -⟩, hnonneg⟩ := harea
  have hroom : ¬ lesser c.width c.height ≤ 2 * c.margin := by simpa [hasRoom] using hroom
  rw [lt_iff hmargin value_zero.1, value_zero.2, not_lt] at hnonneg
  obtain ⟨hleast, hleastValue⟩ := value_lesser hwidth hheight
  have htwice := roundsTo_mul value_two.1 hmargin
  rw [value_two.2] at htwice
  have hfinite : (2 * c.margin).isFinite = true := by
    by_contra hnot
    rcases hnonneg.lt_or_eq with hpos | hzero
    · exact hroom ((htwice.isInfinity (by linarith) hnot).le_of_isFinite hleast)
    · rw [← hzero, mul_zero] at htwice
      exact hnot (htwice.value_eq value_zero.1 value_zero.2).1
  rw [le_iff hleast hfinite, hleastValue, not_le, lt_min_iff] at hroom
  obtain ⟨hroomWidth, hroomHeight⟩ := hroom
  have hone : value c.margin ≤ value (2 * c.margin) :=
    (roundsTo_value hmargin).value_le htwice (by linarith) hmargin hfinite
  have hbelow : ∀ {size part : Float}, size.isFinite = true → part.isFinite = true →
      0 ≤ value part → value part ≤ value size →
        (size - part).isFinite = true ∧ 0 ≤ value (size - part) := by
    intro size part hsize hpart hlow hhigh
    obtain ⟨hdifference, hvalue, -⟩ := (roundsTo_sub hsize hpart).between value_zero.1 hsize
      (by rw [value_zero.2]; linarith) (by linarith)
    exact ⟨hdifference, value_zero.2 ▸ hvalue⟩
  exact ⟨hmargin, (hbelow hheight hmargin hnonneg (by linarith)).1,
    hbelow hwidth hfinite (by linarith) hroomWidth.le,
    hbelow hheight hfinite (by linarith) hroomHeight.le⟩

end Canvas

/-- Mapped samples that are equal in number. -/
structure MappedSample.Same (p q : MappedSample) : Prop where
  /-- The horizontal coordinates are equal. -/
  x_beq : (p.x == q.x) = true
  /-- The vertical coordinates are equal. -/
  y_beq : (p.y == q.y) = true
  /-- The horizontal places are equal. -/
  drawX_beq : (p.drawX == q.drawX) = true
  /-- The vertical places are equal. -/
  drawY_beq : (p.drawY == q.drawY) = true

/-- Extents that are equal in number, with the same flag. -/
structure Extent.Same (e f : Extent) : Prop where
  /-- The lower bounds are equal. -/
  min_beq : (e.min == f.min) = true
  /-- The upper bounds are equal. -/
  max_beq : (e.max == f.max) = true
  /-- Both are widened or neither is. -/
  widened_eq : e.widened = f.widened

/-- Usable extents that are equal in number are the same. -/
theorem Extent.Agrees.same {e f : Extent} (h : e.Agrees f) : f.Same e := by
  obtain ⟨heMin, heMax, -, -⟩ := span_of_isUsable h.isUsable_left
  obtain ⟨hfMin, hfMax, -, -⟩ := span_of_isUsable h.isUsable_right
  exact ⟨(beq_iff hfMin heMin).mpr h.min_eq.symm, (beq_iff hfMax heMax).mpr h.max_eq.symm,
    h.widened_eq.symm⟩

/-- Fractions of the same value take parts of the same value from a length. -/
theorem Double.InUnit.part_eq {f g size : Float} (hf : InUnit f) (hg : InUnit g)
    (h : value g = value f) (hsize : size.isFinite = true) (hnonneg : 0 ≤ value size) :
    (f * size).isFinite = true ∧ (g * size).isFinite = true ∧
      value (g * size) = value (f * size) := by
  have hpart := roundsTo_mul hf.isFinite hsize
  have hfinite := (hpart.between value_zero.1 hsize
    (by rw [value_zero.2]; exact mul_nonneg hf.nonneg hnonneg)
    (mul_le_of_le_one_left hnonneg hf.le_one)).1
  rw [← h] at hpart
  obtain ⟨hfinite', hvalue⟩ := hpart.congr (roundsTo_mul hg.isFinite hsize) hfinite
  exact ⟨hfinite, hfinite', hvalue⟩

namespace Canvas

variable {c : Canvas} {xExtent yExtent xOther yOther : Extent}

/-- A sample has the same place against extents that are equal in number. -/
theorem same_place (h : c.fault? = none) (hx : xExtent.Agrees xOther) (hy : yExtent.Agrees yOther)
    {p : PlottedSample} (hxFinite : p.sample.x.isFinite = true)
    (hyFinite : p.sample.y.isFinite = true) (hpx : xExtent.Shows p.x) (hpx' : xOther.Shows p.x)
    (hpy : yExtent.Shows p.y) (hpy' : yOther.Shows p.y) :
    (c.place xOther yOther p).Same (c.place xExtent yExtent p) := by
  obtain ⟨hmargin, hbase, ⟨hwidth, hwidthValue⟩, hheight, hheightValue⟩ := measures_of_fault? h
  obtain ⟨hxPart, hxPart', hxValue⟩ := (Extent.inUnit_fraction hx.isUsable_left hpx).part_eq
    (Extent.inUnit_fraction hx.isUsable_right hpx') (hx.fraction_eq hpx hpx') hwidth hwidthValue
  obtain ⟨hyPart, hyPart', hyValue⟩ := (Extent.inUnit_fraction hy.isUsable_left hpy).part_eq
    (Extent.inUnit_fraction hy.isUsable_right hpy') (hy.fraction_eq hpy hpy') hheight hheightValue
  have hdrawX := roundsTo_add hmargin hxPart'
  have hdrawY := roundsTo_sub hbase hyPart'
  rw [hxValue] at hdrawX
  rw [hyValue] at hdrawY
  exact ⟨(beq_iff hxFinite hxFinite).mpr rfl, (beq_iff hyFinite hyFinite).mpr rfl,
    hdrawX.beq (roundsTo_add hmargin hxPart), hdrawY.beq (roundsTo_sub hbase hyPart)⟩

/-- The order of the series does not change which values there are. -/
theorem mem_values_reorder (scales : AxisScales) (axis : Axis) (series : List (List Sample))
    (σ : Equiv.Perm (Fin series.length)) (v : Float) :
    v ∈ scales.values axis series ↔ v ∈ scales.values axis (reorder series σ) :=
  ((((reorder_perm series σ).map _).flatten.filterMap _).mem_iff).symm

/-- Fitted extents of finite length are equal in number to those of the series in another order. -/
theorem agrees_reorder (scales : AxisScales) {axis : Axis} (series : List (List Sample))
    (σ : Equiv.Perm (Fin series.length))
    (hspan : (Extent.fit (scales.values axis series)).span.isFinite = true) :
    (Extent.fit (scales.values axis series)).Agrees
      (Extent.fit (scales.values axis (reorder series σ))) :=
  Extent.agrees_fit (scales.isFinite_values axis series) (mem_values_reorder scales axis series σ)
    hspan

/-- In another order the fitted extent has a finite length just if it has one in the given order. -/
theorem span_reorder_iff (scales : AxisScales) (axis : Axis) (series : List (List Sample))
    (σ : Equiv.Perm (Fin series.length)) :
    (Extent.fit (scales.values axis (reorder series σ))).span.isFinite = true ↔
      (Extent.fit (scales.values axis series)).span.isFinite = true := by
  constructor
  · intro hspan
    have hagrees := Extent.agrees_fit (scales.isFinite_values axis _)
      (fun v => (mem_values_reorder scales axis series σ v).symm) hspan
    exact (Extent.span_of_isUsable hagrees.isUsable_right).2.2.1
  · intro hspan
    exact (Extent.span_of_isUsable (agrees_reorder scales series σ hspan).isUsable_right).2.2.1

/-- The row of a series is the same against the extents fitted in another order. -/
theorem same_row (h : c.fault? = none) (scales : AxisScales) (series : List (List Sample))
    (σ : Equiv.Perm (Fin series.length))
    (hspan : ∀ axis, (Extent.fit (scales.values axis series)).span.isFinite = true)
    {samples : List Sample} (hsamples : samples ∈ series) :
    List.Forall₂ MappedSample.Same
      ((samples.filterMap scales.plot?).map
        (c.place (Extent.fit (scales.values .x (reorder series σ)))
          (Extent.fit (scales.values .y (reorder series σ)))))
      ((samples.filterMap scales.plot?).map
        (c.place (Extent.fit (scales.values .x series))
          (Extent.fit (scales.values .y series)))) := by
  have hagrees := fun axis => agrees_reorder scales series σ (hspan axis)
  have hcovers := fun axis => Extent.covers_fit (scales.isFinite_values axis _) (hspan axis)
  have hcovers' := fun axis => Extent.covers_fit (scales.isFinite_values axis _)
    ((span_reorder_iff scales axis series σ).mpr (hspan axis))
  rw [List.forall₂_map_left_iff, List.forall₂_map_right_iff, List.forall₂_same]
  intro p hp
  have hvalue := AxisScales.coordinate_mem_values hsamples hp
  have hvalue' := fun axis => (mem_values_reorder scales axis series σ _).mp (hvalue axis)
  obtain ⟨s, -, hs⟩ := List.mem_filterMap.mp hp
  obtain ⟨rfl, hx, hy⟩ := DrawingOptions.toPlot?_of_plot? hs
  exact same_place h (hagrees .x) (hagrees .y) (AxisScale.isFinite_of_toPlot? hx).1
    (AxisScale.isFinite_of_toPlot? hy).1 ((hcovers .x).shows _ (hvalue .x))
    ((hcovers' .x).shows _ (hvalue' .x)) ((hcovers .y).shows _ (hvalue .y))
    ((hcovers' .y).shows _ (hvalue' .y))

/-- Series in another order are mapped just if they are mapped at all. The extents are equal in
number, and the mapped series are in that order, equal in number point for point. -/
theorem map_reorder (c : Canvas) (scales : AxisScales) (series : List (List Sample))
    (σ : Equiv.Perm (Fin series.length)) (h : c.fault? = none) :
    ((∃ n, c.map scales (reorder series σ) = .ok n) ↔ ∃ m, c.map scales series = .ok m) ∧
      ∀ m n, c.map scales series = .ok m → c.map scales (reorder series σ) = .ok n →
        (∀ axis, (n.extent axis).Same (m.extent axis)) ∧
          n.series.length = series.length ∧ m.series.length = series.length ∧
            ∀ i : Fin series.length, ∃ row other, n.series[i]? = some row ∧
              m.series[σ i]? = some other ∧ List.Forall₂ MappedSample.Same row other := by
  constructor
  · simp only [map_eq_ok_iff h, exists_and_left, exists_eq, and_true, span_reorder_iff]
  · intro m n hm hn
    obtain ⟨hspan, rfl⟩ := (map_eq_ok_iff h).mp hm
    obtain ⟨-, rfl⟩ := (map_eq_ok_iff h).mp hn
    refine ⟨fun axis => ?_, by simp [fitted, AxisScales.survivors, reorder],
      by simp [fitted, AxisScales.survivors], fun i => ?_⟩
    · have hsame := (agrees_reorder scales series σ (hspan axis)).same
      cases axis <;> exact hsame
    · refine ⟨_, _, ?_, ?_, same_row h scales series σ hspan (List.getElem_mem (σ i).isLt)⟩
      · simp [fitted, AxisScales.survivors, reorder, scales.filterMap_plot?_filter]
      · simp [fitted, AxisScales.survivors, scales.filterMap_plot?_filter]

/-- Two series in the standard drawing in either order, with zeros of both signs and a point without
a height. -/
theorem map_reorder_standard :
    ∃ m n, DrawingOptions.standard.canvas.map ⟨.linear, .linear⟩
        [[⟨0, 0⟩, ⟨1, 2⟩], [⟨-0, 1⟩, ⟨2, Double.nan⟩]] = .ok m ∧
      DrawingOptions.standard.canvas.map ⟨.linear, .linear⟩
        [[⟨-0, 1⟩, ⟨2, Double.nan⟩], [⟨0, 0⟩, ⟨1, 2⟩]] = .ok n ∧
      n.xExtent.Same m.xExtent ∧ n.yExtent.Same m.yExtent := by
  have hfault : DrawingOptions.standard.canvas.fault? = none := by decide +kernel
  have hok : (DrawingOptions.standard.canvas.map ⟨.linear, .linear⟩
      [[⟨0, 0⟩, ⟨1, 2⟩], [⟨-0, 1⟩, ⟨2, Double.nan⟩]]).toBool = true := by decide +kernel
  cases hm : DrawingOptions.standard.canvas.map ⟨.linear, .linear⟩
      [[⟨0, 0⟩, ⟨1, 2⟩], [⟨-0, 1⟩, ⟨2, Double.nan⟩]] with
  | error e => rw [hm] at hok; cases hok
  | ok m =>
    have hmapped := map_reorder DrawingOptions.standard.canvas ⟨.linear, .linear⟩
      [[⟨0, 0⟩, ⟨1, 2⟩], [⟨-0, 1⟩, ⟨2, Double.nan⟩]] (Equiv.swap (0 : Fin 2) 1) hfault
    obtain ⟨n, hn⟩ := hmapped.1.mpr ⟨m, hm⟩
    obtain ⟨hsame, -⟩ := hmapped.2 m n hm hn
    exact ⟨m, n, rfl, hn, hsame .x, hsame .y⟩

end Canvas

end CurvePlot
