import CurvePlot.Plot.Report
import CurvePlot.Proofs.Number.Arithmetic

/-!
# Mapped samples stay inside the drawing

A mapping places samples with five rounded operations. The extent of an axis covers every value that
it shows, before and after widening (`Extent.Covers`), so that the fraction of a value lies between zero
and one and grows with the value. The measures of a canvas are whole numbers of 32 bits, on which
the room between the margins is computed without rounding (`Canvas.innerSize_eq`). Hence every
mapped sample lies inside the margins, and places follow the order in plotting space
(`DrawingOptions.map_inside_and_ordered`).
-/

namespace CurvePlot

open Double

/-- The double is finite and lies between zero and one. -/
structure Double.InUnit (f : Float) : Prop where
  /-- It is finite. -/
  isFinite : f.isFinite = true
  /-- It is not negative. -/
  nonneg : 0 ≤ value f
  /-- It is not above one. -/
  le_one : value f ≤ 1

/-- An axis shows finite values alone, and at finite places. -/
theorem AxisScale.isFinite_of_toPlot? {scale : AxisScale} {v w : Float}
    (h : scale.toPlot? v = some w) : v.isFinite = true ∧ w.isFinite = true := by
  cases scale with
  | linear =>
    simp only [toPlot?] at h
    split at h
    · next hv => exact ⟨hv, Option.some.inj h ▸ hv⟩
    · cases h
  | log =>
    simp only [toPlot?] at h
    split at h
    · next hv =>
      simp only [Bool.and_eq_true] at hv
      exact ⟨hv.1.1, Option.some.inj h ▸ hv.2⟩
    · cases h

namespace Extent

/-- The finite value lies between the bounds of the extent. -/
structure Shows (e : Extent) (v : Float) : Prop where
  /-- The value is finite. -/
  isFinite : v.isFinite = true
  /-- It is not below the lower bound. -/
  min_le : value e.min ≤ value v
  /-- It is not above the upper bound. -/
  le_max : value v ≤ value e.max

/-- The bounds of the extent are finite, and the values lie between them. -/
structure Covers (e : Extent) (values : List Float) : Prop where
  /-- The lower bound is finite. -/
  isFinite_min : e.min.isFinite = true
  /-- The upper bound is finite. -/
  isFinite_max : e.max.isFinite = true
  /-- The values lie between the bounds. -/
  shows : ∀ v ∈ values, e.Shows v

/-- One more value moves the bounds no further inward. -/
theorem Covers.enlarge {e : Extent} {values : List Float} (h : e.Covers values) {v : Float}
    (hv : v.isFinite = true) : (e.enlarge v).Covers (values ++ [v]) := by
  obtain ⟨hminFinite, hmin⟩ := value_lesser h.isFinite_min hv
  obtain ⟨hmaxFinite, hmax⟩ := value_greater h.isFinite_max hv
  refine ⟨hminFinite, hmaxFinite, fun w hw => ?_⟩
  rcases List.mem_append.mp hw with hw | hw
  · obtain ⟨hfinite, hlow, hhigh⟩ := h.shows w hw
    exact ⟨hfinite, hmin.trans_le ((min_le_left _ _).trans hlow),
      (hhigh.trans (le_max_left _ _)).trans_eq hmax.symm⟩
  · obtain rfl := List.mem_singleton.mp hw
    exact ⟨hv, hmin.trans_le (min_le_right _ _), (le_max_right _ _).trans_eq hmax.symm⟩

/-- Values taken one after the other are all covered. -/
theorem Covers.foldl {e : Extent} {values : List Float} (h : e.Covers values) {rest : List Float}
    (hrest : ∀ v ∈ rest, v.isFinite = true) : (rest.foldl Extent.enlarge e).Covers (values ++ rest) := by
  induction rest generalizing e values with
  | nil => simpa using h
  | cons v rest ih =>
    have hstep := ih (h.enlarge (hrest v (by simp))) fun w hw => hrest w (by simp [hw])
    simpa using hstep

/-- The interval from the least to the greatest value covers the values. -/
theorem covers_of_ofValues? {e : Extent} {values : List Float} (h : ofValues? values = some e)
    (hvalues : ∀ v ∈ values, v.isFinite = true) : e.Covers values := by
  cases values with
  | nil => cases h
  | cons v rest =>
    obtain rfl := Option.some.inj h
    have hv := hvalues v (by simp)
    have hfirst : Covers ⟨v, v, false⟩ [v] := ⟨hv, hv, fun w hw => by
      obtain rfl := List.mem_singleton.mp hw
      exact ⟨hv, le_rfl, le_rfl⟩⟩
    exact hfirst.foldl fun w hw => hvalues w (by simp [hw])

/-- An extent of usable length has finite bounds, the upper one above the lower one. -/
theorem span_of_isUsable {e : Extent} (h : e.isUsable = true) :
    e.min.isFinite = true ∧ e.max.isFinite = true ∧ e.span.isFinite = true ∧ 0 < value e.span := by
  simp only [isUsable, Bool.and_eq_true, Bool.not_eq_true', decide_eq_false_iff_not] at h
  obtain ⟨hspan, hpos⟩ := h
  obtain ⟨hmax, hmin⟩ := isFinite_of_sub hspan
  refine ⟨hmin, hmax, hspan, ?_⟩
  rw [le_iff hspan value_zero.1, value_zero.2] at hpos
  exact not_le.mp hpos

/-- The distance that coinciding bounds are moved is not negative. -/
theorem pad_nonneg {e : Extent} (h : e.min.isFinite = true) :
    e.pad.isFinite = true ∧ 0 ≤ value e.pad := by
  obtain ⟨habsFinite, habs⟩ := value_abs h
  have htenth : (0.1 : Float).isFinite = true := rfl
  have hlow : value 0 ≤ value 0.1 := (le_iff value_zero.1 htenth).mp (by decide +kernel)
  have hhigh : value 0.1 ≤ value 1 := (le_iff htenth value_one.1).mp (by decide +kernel)
  rw [value_zero.2] at hlow
  rw [value_one.2] at hhigh
  have hsize := abs_nonneg (value e.min)
  have hproduct := roundsTo_mul habsFinite htenth
  rw [habs] at hproduct
  obtain ⟨hfinite, -, -⟩ := hproduct.between value_zero.1 habsFinite
    (by rw [value_zero.2]; exact mul_nonneg hsize hlow)
    (by rw [habs]; exact mul_le_of_le_one_right hsize hhigh)
  obtain ⟨hpad, hvalue⟩ := value_greater hfinite value_one.1
  refine ⟨hpad, ?_⟩
  change 0 ≤ value (greater (e.min.abs * 0.1) 1)
  rw [hvalue, value_one.2]
  exact zero_le_one.trans (le_max_right _ _)

/-- A widened extent of usable length still covers the values. -/
theorem Covers.widen {e : Extent} {values : List Float} (h : e.Covers values)
    (hu : e.widen.isUsable = true) : e.widen.Covers values := by
  obtain ⟨hmin, hmax, -, -⟩ := span_of_isUsable hu
  refine ⟨hmin, hmax, fun v hv => ?_⟩
  obtain ⟨hfinite, hlow, hhigh⟩ := h.shows v hv
  revert hmin hmax
  unfold Extent.widen
  split
  · exact fun _ _ => ⟨hfinite, hlow, hhigh⟩
  · intro hmin hmax
    obtain ⟨hpad, hnonneg⟩ := pad_nonneg h.isFinite_min
    have hdown := (roundsTo_sub h.isFinite_min hpad).value_le (roundsTo_value h.isFinite_min)
      (by linarith) hmin h.isFinite_min
    have hup := (roundsTo_value h.isFinite_max).value_le (roundsTo_add h.isFinite_max hpad)
      (by linarith) h.isFinite_max hmax
    exact ⟨hfinite, hdown.trans hlow, hhigh.trans hup⟩

/-- The extent of an axis is usable and covers the values that it shows. -/
theorem covers_of_resolve {axis : Axis} {values : List Float} {e : Extent}
    (h : resolve axis values = .ok e) (hvalues : ∀ v ∈ values, v.isFinite = true) :
    e.isUsable = true ∧ e.Covers values := by
  unfold resolve at h
  split at h
  · next hnone =>
    obtain rfl : values = [] := by
      cases values with
      | nil => rfl
      | cons v rest => cases hnone
    cases h
    exact ⟨by decide +kernel, value_zero.1, value_one.1, by simp⟩
  · next extent hsome =>
    split at h
    · next hu =>
      cases h
      exact ⟨hu, (covers_of_ofValues? hsome hvalues).widen hu⟩
    · cases h

variable {e : Extent} {v w : Float}

/-- The distance of a shown value from the lower bound is not negative and no longer than the extent,
and it grows with the value. -/
theorem distance_bounds (hu : e.isUsable = true) (hv : e.Shows v) :
    (v - e.min).isFinite = true ∧ 0 ≤ value (v - e.min) ∧ value (v - e.min) ≤ value e.span := by
  obtain ⟨hmin, hmax, hspan, -⟩ := span_of_isUsable hu
  have hdistance := roundsTo_sub hv.isFinite hmin
  have hlength := roundsTo_sub hmax hmin
  have hnonneg : 0 ≤ value v - value e.min := sub_nonneg.mpr hv.min_le
  have hle : value v - value e.min ≤ value e.max - value e.min := sub_le_sub_right hv.le_max _
  have hfinite := hdistance.isFinite_of_abs_le hlength
    (by rwa [abs_of_nonneg hnonneg, abs_of_nonneg (hnonneg.trans hle)]) hspan
  exact ⟨hfinite, hdistance.zero_le_value hfinite hnonneg,
    hdistance.value_le hlength hle hfinite hspan⟩

/-- The fraction of a shown value lies between zero and one. -/
theorem inUnit_fraction (hu : e.isUsable = true) (hv : e.Shows v) : InUnit (e.fraction v) := by
  obtain ⟨-, -, hspan, hpos⟩ := span_of_isUsable hu
  obtain ⟨hfinite, hnonneg, hle⟩ := distance_bounds hu hv
  obtain ⟨hfraction, hlow, hhigh⟩ := (roundsTo_div hfinite hspan hpos.ne').between value_zero.1
    value_one.1 (by rw [value_zero.2]; exact div_nonneg hnonneg hpos.le)
    (by rw [value_one.2]; exact div_le_one_of_le₀ hle hpos.le)
  exact ⟨hfraction, value_zero.2 ▸ hlow, value_one.2 ▸ hhigh⟩

/-- The fraction grows with the value. -/
theorem fraction_le (hu : e.isUsable = true) (hv : e.Shows v) (hw : e.Shows w)
    (h : value v ≤ value w) : value (e.fraction v) ≤ value (e.fraction w) := by
  obtain ⟨hmin, -, hspan, hpos⟩ := span_of_isUsable hu
  have hdv := (distance_bounds hu hv).1
  have hdw := (distance_bounds hu hw).1
  have hdistance := (roundsTo_sub hv.isFinite hmin).value_le (roundsTo_sub hw.isFinite hmin)
    (sub_le_sub_right h _) hdv hdw
  exact (roundsTo_div hdv hspan hpos.ne').value_le (roundsTo_div hdw hspan hpos.ne')
    (div_le_div_of_nonneg_right hdistance hpos.le) (inUnit_fraction hu hv).isFinite
    (inUnit_fraction hu hw).isFinite

end Extent

/-! ### Places on a canvas -/

section Places

variable {size margin : UInt32} {f g : Float}

/-- Both margins together are the whole number that they should be. -/
theorem value_twice (margin : UInt32) :
    (2 * margin.toFloat).isFinite = true ∧ value (2 * margin.toFloat) = 2 * margin.toNat := by
  have hlt := margin.toNat_lt
  obtain ⟨hmargin, hvalue⟩ := value_uint32 margin
  have h := roundsTo_mul value_two.1 hmargin
  have hcast : (2 * margin.toNat : ℚ) = ((2 * margin.toNat : ℤ) : ℚ) := by push_cast; rfl
  rw [value_two.2, hvalue, hcast] at h
  rw [hcast]
  exact h.value_eq_int (by omega)

/-- The length without one margin, and the length without both, are the whole numbers that they
should be. -/
theorem value_inner (h : 2 * margin.toNat < size.toNat) :
    ((size.toFloat - margin.toFloat).isFinite = true ∧
      value (size.toFloat - margin.toFloat) = size.toNat - margin.toNat) ∧
    (size.toFloat - 2 * margin.toFloat).isFinite = true ∧
      value (size.toFloat - 2 * margin.toFloat) = size.toNat - 2 * margin.toNat := by
  have hsizeLt := size.toNat_lt
  obtain ⟨hsize, hsizeValue⟩ := value_uint32 size
  obtain ⟨hmargin, hmarginValue⟩ := value_uint32 margin
  have hone := roundsTo_sub hsize hmargin
  obtain ⟨htwice, htwiceValue⟩ := value_twice margin
  have hboth := roundsTo_sub hsize htwice
  rw [hsizeValue, hmarginValue] at hone
  rw [hsizeValue, htwiceValue] at hboth
  constructor
  · have hcast : (size.toNat : ℚ) - margin.toNat = ((size.toNat - margin.toNat : ℤ) : ℚ) := by
      push_cast
      rfl
    rw [hcast] at hone ⊢
    exact hone.value_eq_int (by omega)
  · have hcast : (size.toNat : ℚ) - 2 * margin.toNat =
        ((size.toNat - 2 * margin.toNat : ℤ) : ℚ) := by
      push_cast
      rfl
    rw [hcast] at hboth ⊢
    exact hboth.value_eq_int (by omega)

/-- A fraction of the length between the margins is not longer than it. -/
theorem part_bounds (h : 2 * margin.toNat < size.toNat) (hf : InUnit f) :
    (f * (size.toFloat - 2 * margin.toFloat)).isFinite = true ∧
      0 ≤ value (f * (size.toFloat - 2 * margin.toFloat)) ∧
        value (f * (size.toFloat - 2 * margin.toFloat)) ≤ size.toNat - 2 * margin.toNat := by
  obtain ⟨-, hinner, hvalue⟩ := value_inner h
  have hnonneg : (0 : ℚ) ≤ size.toNat - 2 * margin.toNat := by
    have : (2 * margin.toNat : ℚ) ≤ size.toNat := by exact_mod_cast h.le
    linarith
  rw [← hvalue] at hnonneg ⊢
  have hbetween := (roundsTo_mul hf.isFinite hinner).between value_zero.1 hinner
    (by rw [value_zero.2]; exact mul_nonneg hf.nonneg hnonneg)
    (mul_le_of_le_one_left hnonneg hf.le_one)
  rwa [value_zero.2] at hbetween

/-- A greater fraction of it is not shorter. -/
theorem part_le (h : 2 * margin.toNat < size.toNat) (hf : InUnit f) (hg : InUnit g)
    (hfg : value f ≤ value g) :
    value (f * (size.toFloat - 2 * margin.toFloat)) ≤
      value (g * (size.toFloat - 2 * margin.toFloat)) := by
  obtain ⟨-, hinner, hvalue⟩ := value_inner h
  have hnonneg : 0 ≤ value (size.toFloat - 2 * margin.toFloat) := by
    have : (2 * margin.toNat : ℚ) ≤ size.toNat := by exact_mod_cast h.le
    rw [hvalue]
    linarith
  exact (roundsTo_mul hf.isFinite hinner).value_le (roundsTo_mul hg.isFinite hinner)
    (mul_le_mul_of_nonneg_right hfg hnonneg) (part_bounds h hf).1 (part_bounds h hg).1

/-- Places counted from the near margin stay between the margins. -/
theorem forward_bounds (h : 2 * margin.toNat < size.toNat) (hf : InUnit f) :
    (margin.toFloat + f * (size.toFloat - 2 * margin.toFloat)).isFinite = true ∧
      value margin.toFloat ≤ value (margin.toFloat + f * (size.toFloat - 2 * margin.toFloat)) ∧
        value (margin.toFloat + f * (size.toFloat - 2 * margin.toFloat)) ≤
          value (size.toFloat - margin.toFloat) := by
  obtain ⟨hmargin, hmarginValue⟩ := value_uint32 margin
  obtain ⟨hpart, hnonneg, hle⟩ := part_bounds h hf
  obtain ⟨⟨hend, hendValue⟩, -⟩ := value_inner h
  apply (roundsTo_add hmargin hpart).between hmargin hend
  · linarith
  · rw [hmarginValue, hendValue]
    linarith

/-- Places counted back from the far margin stay between the margins. -/
theorem backward_bounds (h : 2 * margin.toNat < size.toNat) (hf : InUnit f) :
    (size.toFloat - margin.toFloat - f * (size.toFloat - 2 * margin.toFloat)).isFinite = true ∧
      value margin.toFloat ≤
          value (size.toFloat - margin.toFloat - f * (size.toFloat - 2 * margin.toFloat)) ∧
        value (size.toFloat - margin.toFloat - f * (size.toFloat - 2 * margin.toFloat)) ≤
          value (size.toFloat - margin.toFloat) := by
  obtain ⟨hmargin, hmarginValue⟩ := value_uint32 margin
  obtain ⟨hpart, hnonneg, hle⟩ := part_bounds h hf
  obtain ⟨⟨hend, hendValue⟩, -⟩ := value_inner h
  apply (roundsTo_sub hend hpart).between hmargin hend
  · rw [hmarginValue, hendValue]
    linarith
  · linarith

/-- A place counted from the near margin grows with the fraction. -/
theorem forward_le (h : 2 * margin.toNat < size.toNat) (hf : InUnit f) (hg : InUnit g)
    (hfg : value f ≤ value g) :
    value (margin.toFloat + f * (size.toFloat - 2 * margin.toFloat)) ≤
      value (margin.toFloat + g * (size.toFloat - 2 * margin.toFloat)) :=
  (roundsTo_add (value_uint32 margin).1 (part_bounds h hf).1).value_le
    (roundsTo_add (value_uint32 margin).1 (part_bounds h hg).1)
    (add_le_add_right (part_le h hf hg hfg) _) (forward_bounds h hf).1 (forward_bounds h hg).1

/-- A place counted back from the far margin shrinks as the fraction grows. -/
theorem backward_le (h : 2 * margin.toNat < size.toNat) (hf : InUnit f) (hg : InUnit g)
    (hfg : value f ≤ value g) :
    value (size.toFloat - margin.toFloat - g * (size.toFloat - 2 * margin.toFloat)) ≤
      value (size.toFloat - margin.toFloat - f * (size.toFloat - 2 * margin.toFloat)) :=
  (roundsTo_sub (value_inner h).1.1 (part_bounds h hg).1).value_le
    (roundsTo_sub (value_inner h).1.1 (part_bounds h hf).1)
    (sub_le_sub_left (part_le h hf hg hfg) _) (backward_bounds h hg).1 (backward_bounds h hf).1

end Places

namespace Canvas

/-- The mapped sample lies inside the margins. -/
structure Inside (c : Canvas) (p : MappedSample) : Prop where
  /-- The horizontal place is finite. -/
  isFinite_drawX : p.drawX.isFinite = true
  /-- The vertical place is finite. -/
  isFinite_drawY : p.drawY.isFinite = true
  /-- It is not in the left margin. -/
  left : c.margin ≤ p.drawX
  /-- It is not in the right margin. -/
  right : p.drawX ≤ c.width - c.margin
  /-- It is not in the upper margin. -/
  top : c.margin ≤ p.drawY
  /-- It is not in the lower margin. -/
  bottom : p.drawY ≤ c.height - c.margin

end Canvas

namespace DrawingOptions

variable {o : DrawingOptions}

/-- A canvas without fault has room between its margins. -/
theorem room_of_fault? (h : o.canvas.fault? = none) :
    2 * o.margin.toNat < o.width.toNat ∧ 2 * o.margin.toNat < o.height.toNat := by
  have hroom : o.canvas.hasRoom = true := by
    unfold Canvas.fault? at h
    split at h
    · cases h
    · split at h
      · cases h
      · next hroom => simpa using hroom
  obtain ⟨hwidth, hwidthValue⟩ := value_uint32 o.width
  obtain ⟨hheight, hheightValue⟩ := value_uint32 o.height
  obtain ⟨htwice, htwiceValue⟩ := value_twice o.margin
  obtain ⟨hleast, hleastValue⟩ := value_lesser hwidth hheight
  have hlt : ¬ lesser o.width.toFloat o.height.toFloat ≤ 2 * o.margin.toFloat := by
    simpa [Canvas.hasRoom, canvas] using hroom
  rw [le_iff hleast htwice, hleastValue, hwidthValue, hheightValue, htwiceValue, not_le,
    lt_min_iff] at hlt
  exact_mod_cast hlt

/-- A sample that the axes show is placed inside the margins. -/
theorem inside_place (h : o.canvas.fault? = none) {xExtent yExtent : Extent}
    (hx : xExtent.isUsable = true) (hy : yExtent.isUsable = true) {p : PlottedSample}
    (hpx : xExtent.Shows p.x) (hpy : yExtent.Shows p.y) :
    o.canvas.Inside (o.canvas.place xExtent yExtent p) := by
  obtain ⟨hwidth, hheight⟩ := room_of_fault? h
  have hmargin := (value_uint32 o.margin).1
  obtain ⟨hfiniteX, hleft, hright⟩ := forward_bounds hwidth (Extent.inUnit_fraction hx hpx)
  obtain ⟨hfiniteY, htop, hbottom⟩ := backward_bounds hheight (Extent.inUnit_fraction hy hpy)
  exact ⟨hfiniteX, hfiniteY, (le_iff hmargin hfiniteX).mpr hleft,
    (le_iff hfiniteX (value_inner hwidth).1.1).mpr hright, (le_iff hmargin hfiniteY).mpr htop,
    (le_iff hfiniteY (value_inner hheight).1.1).mpr hbottom⟩

/-- What both axes show of a sample. -/
theorem toPlot?_of_plot? {scales : AxisScales} {s : Sample} {q : PlottedSample}
    (h : scales.plot? s = some q) :
    q.sample = s ∧ scales.x.toPlot? s.x = some q.x ∧ scales.y.toPlot? s.y = some q.y := by
  unfold AxisScales.plot? at h
  split at h
  · next x y hx hy =>
    cases h
    exact ⟨rfl, hx, hy⟩
  · cases h

/-- A mapping places samples that the axes show, against extents that cover them. -/
theorem exists_place_of_map {series : List (List Sample)} {m : Mapping}
    (h : o.canvas.map o.scales series = .ok m) :
    o.canvas.fault? = none ∧ m.xExtent.isUsable = true ∧ m.yExtent.isUsable = true ∧
      ∀ p ∈ m.series.flatten, ∃ q : PlottedSample, p = o.canvas.place m.xExtent m.yExtent q ∧
        o.xScale.toPlot? p.x = some q.x ∧ o.yScale.toPlot? p.y = some q.y ∧
          m.xExtent.Shows q.x ∧ m.yExtent.Shows q.y := by
  unfold Canvas.map at h
  cases hfault : o.canvas.fault? with
  | some fault => rw [hfault] at h; cases h
  | none =>
    rw [hfault] at h
    obtain ⟨hx, hy, hseries⟩ := Canvas.mapSeries_eq_ok h
    obtain ⟨plotted, hplotted⟩ :
        ∃ plotted, plotted = series.map fun samples => samples.filterMap o.scales.plot? := ⟨_, rfl⟩
    rw [← hplotted] at hx hy hseries
    have hshown : ∀ q ∈ plotted.flatten, o.xScale.toPlot? q.sample.x = some q.x ∧
        o.yScale.toPlot? q.sample.y = some q.y := by
      intro q hq
      obtain ⟨points, hpoints, hq⟩ := List.mem_flatten.mp hq
      rw [hplotted] at hpoints
      obtain ⟨samples, -, rfl⟩ := List.mem_map.mp hpoints
      obtain ⟨s, -, hs⟩ := List.mem_filterMap.mp hq
      obtain ⟨rfl, hx, hy⟩ := toPlot?_of_plot? hs
      exact ⟨hx, hy⟩
    obtain ⟨hxUsable, hxCovers⟩ := Extent.covers_of_resolve hx fun v hv => by
      obtain ⟨q, hq, rfl⟩ := List.mem_map.mp hv
      exact (AxisScale.isFinite_of_toPlot? (hshown q hq).1).2
    obtain ⟨hyUsable, hyCovers⟩ := Extent.covers_of_resolve hy fun v hv => by
      obtain ⟨q, hq, rfl⟩ := List.mem_map.mp hv
      exact (AxisScale.isFinite_of_toPlot? (hshown q hq).2).2
    refine ⟨rfl, hxUsable, hyUsable, fun p hp => ?_⟩
    rw [hseries] at hp
    obtain ⟨points, hpoints, hp⟩ := List.mem_flatten.mp hp
    obtain ⟨samples, hsamples, rfl⟩ := List.mem_map.mp hpoints
    obtain ⟨q, hq, rfl⟩ := List.mem_map.mp hp
    have hmem : q ∈ plotted.flatten := List.mem_flatten.mpr ⟨samples, hsamples, hq⟩
    exact ⟨q, rfl, (hshown q hmem).1, (hshown q hmem).2,
      hxCovers.shows _ (List.mem_map_of_mem hmem), hyCovers.shows _ (List.mem_map_of_mem hmem)⟩

/-- Every mapped sample lies inside the margins of the drawing, and the places of any two mapped
samples are in the order of their values in plotting space, downward for `y`. -/
theorem map_inside_and_ordered (o : DrawingOptions) (series : List (List Sample)) (m : Mapping)
    (h : o.canvas.map o.scales series = .ok m) :
    (∀ p ∈ m.series.flatten, o.canvas.Inside p) ∧
      ∀ p ∈ m.series.flatten, ∀ q ∈ m.series.flatten, ∃ px py qx qy,
        o.xScale.toPlot? p.x = some px ∧ o.yScale.toPlot? p.y = some py ∧
          o.xScale.toPlot? q.x = some qx ∧ o.yScale.toPlot? q.y = some qy ∧
            (px ≤ qx → p.drawX ≤ q.drawX) ∧ (py ≤ qy → q.drawY ≤ p.drawY) := by
  obtain ⟨hfault, hx, hy, hplaces⟩ := exists_place_of_map h
  obtain ⟨hwidth, hheight⟩ := room_of_fault? hfault
  constructor
  · intro p hp
    obtain ⟨p, rfl, -, -, hpx, hpy⟩ := hplaces p hp
    exact inside_place hfault hx hy hpx hpy
  · intro p hp q hq
    obtain ⟨p, rfl, hpxPlot, hpyPlot, hpx, hpy⟩ := hplaces p hp
    obtain ⟨q, rfl, hqxPlot, hqyPlot, hqx, hqy⟩ := hplaces q hq
    have hpInside := inside_place hfault hx hy hpx hpy
    have hqInside := inside_place hfault hx hy hqx hqy
    refine ⟨p.x, p.y, q.x, q.y, hpxPlot, hpyPlot, hqxPlot, hqyPlot, fun hle => ?_, fun hle => ?_⟩
    · have hvalue := (le_iff hpx.isFinite hqx.isFinite).mp hle
      exact (le_iff hpInside.isFinite_drawX hqInside.isFinite_drawX).mpr
        (forward_le hwidth (Extent.inUnit_fraction hx hpx) (Extent.inUnit_fraction hx hqx)
          (Extent.fraction_le hx hpx hqx hvalue))
    · have hvalue := (le_iff hpy.isFinite hqy.isFinite).mp hle
      exact (le_iff hqInside.isFinite_drawY hpInside.isFinite_drawY).mpr
        (backward_le hheight (Extent.inUnit_fraction hy hpy) (Extent.inUnit_fraction hy hqy)
          (Extent.fraction_le hy hpy hqy hvalue))

/-- Two points, and one without a height, in the standard drawing. -/
theorem map_inside_and_ordered_standard :
    ∃ m, standard.canvas.map standard.scales [[⟨0, 0⟩, ⟨0.5, Double.nan⟩, ⟨1, 2⟩]] = .ok m ∧
      m.series = [[⟨0, 0, 10, 490⟩, ⟨1, 2, 790, 10⟩]] ∧
        ∀ p ∈ m.series.flatten, standard.canvas.Inside p := by
  have h : standard.canvas.map standard.scales [[⟨0, 0⟩, ⟨0.5, Double.nan⟩, ⟨1, 2⟩]] =
      .ok ⟨⟨0, 1, false⟩, ⟨0, 2, false⟩, [[⟨0, 0, 10, 490⟩, ⟨1, 2, 790, 10⟩]]⟩ := by
    decide +kernel
  exact ⟨_, h, rfl, (map_inside_and_ordered standard _ _ h).1⟩

end DrawingOptions

end CurvePlot
