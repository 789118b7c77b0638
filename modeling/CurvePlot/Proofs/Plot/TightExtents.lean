import CurvePlot.Proofs.Number.RoundedDistance
import CurvePlot.Proofs.Plot.BatchReport
import CurvePlot.Proofs.Plot.DrawingBounds

/-!
# Mappings keep what both axes show, against tight extents

A sample survives if both axes can show it. The extent of each axis is fitted to the values of the
survivors (`Extent.fit`): it is the interval from the least to the greatest value, widened if they
coincide, or the unit interval if there is no value. A widened interval has moved at least one of
its bounds, however large the value is, so that an interval whose length is finite has a positive
length (`Extent.isUsable_fit`). Hence a length that is not finite is the only reason for which a
sound drawing cannot show its series (`Canvas.map_eq`), and the extents are tight
(`Canvas.map_tight`).
-/

namespace CurvePlot

open Double

/-! ### Survivors -/

/-- The scale of an axis. -/
def AxisScales.scale (scales : AxisScales) : Axis → AxisScale
  | .x => scales.x
  | .y => scales.y

/-- The coordinate of a sample along an axis. -/
def Sample.coordinate (s : Sample) : Axis → Float
  | .x => s.x
  | .y => s.y

/-- The value of a plotted sample on an axis. -/
def PlottedSample.coordinate (p : PlottedSample) : Axis → Float
  | .x => p.x
  | .y => p.y

/-- The sample that was mapped. -/
def MappedSample.sample (p : MappedSample) : Sample :=
  ⟨p.x, p.y⟩

/-- The extent of an axis. -/
def Mapping.extent (m : Mapping) : Axis → Extent
  | .x => m.xExtent
  | .y => m.yExtent

namespace AxisScales

/-- Whether both axes can show the sample. -/
def shows (scales : AxisScales) (s : Sample) : Bool :=
  (scales.x.toPlot? s.x).isSome && (scales.y.toPlot? s.y).isSome

/-- The samples of each series that both axes can show. -/
def survivors (scales : AxisScales) (series : List (List Sample)) : List (List Sample) :=
  series.map fun samples => samples.filter scales.shows

/-- The values on an axis, in plotting space, of all samples that both axes can show. -/
def values (scales : AxisScales) (axis : Axis) (series : List (List Sample)) : List Float :=
  (scales.survivors series).flatten.filterMap fun s =>
    (scales.scale axis).toPlot? (s.coordinate axis)

/-- What is shown of a sample on one axis: nothing, if the other axis cannot show it. -/
theorem coordinate_plot? (scales : AxisScales) (axis : Axis) (s : Sample) :
    (scales.plot? s).map (fun p => p.coordinate axis) =
      if scales.shows s then (scales.scale axis).toPlot? (s.coordinate axis) else none := by
  unfold plot? shows
  cases hx : scales.x.toPlot? s.x <;> cases hy : scales.y.toPlot? s.y <;> cases axis <;>
    simp [scale, Sample.coordinate, PlottedSample.coordinate, hx, hy]

/-- The samples that are plotted are the survivors. -/
theorem sample_plot? (scales : AxisScales) (s : Sample) :
    (scales.plot? s).map PlottedSample.sample = if scales.shows s then some s else none := by
  unfold plot? shows
  cases scales.x.toPlot? s.x <;> cases scales.y.toPlot? s.y <;> rfl

/-- Plotting drops the other samples by itself. -/
theorem filterMap_plot?_filter (scales : AxisScales) (samples : List Sample) :
    (samples.filter scales.shows).filterMap scales.plot? = samples.filterMap scales.plot? := by
  rw [List.filterMap_filter]
  refine List.filterMap_congr fun s _ => ?_
  have h := sample_plot? scales s
  split
  · rfl
  · next hshows =>
    rw [if_neg hshows, Option.map_eq_none_iff] at h
    exact h.symm

/-- The values of the plotted samples are those of the survivors. -/
theorem values_eq (scales : AxisScales) (axis : Axis) (series : List (List Sample)) :
    ((series.map fun samples => samples.filterMap scales.plot?).flatten.map fun p =>
      p.coordinate axis) = scales.values axis series := by
  rw [values, survivors, ← List.filter_flatten, ← List.filterMap_flatten, List.map_filterMap,
    List.filterMap_filter]
  exact List.filterMap_congr fun s _ => coordinate_plot? scales axis s

/-- So a plotted sample has its values among them. -/
theorem coordinate_mem_values {scales : AxisScales} {series : List (List Sample)}
    {samples : List Sample} (hsamples : samples ∈ series) {p : PlottedSample}
    (hp : p ∈ samples.filterMap scales.plot?) (axis : Axis) :
    p.coordinate axis ∈ scales.values axis series := by
  rw [← values_eq]
  exact List.mem_map_of_mem (List.mem_flatten.mpr ⟨_, List.mem_map_of_mem hsamples, hp⟩)

/-- The values are finite. -/
theorem isFinite_values (scales : AxisScales) (axis : Axis) (series : List (List Sample)) :
    ∀ v ∈ scales.values axis series, v.isFinite = true := by
  intro v hv
  obtain ⟨s, -, hs⟩ := List.mem_filterMap.mp hv
  exact (AxisScale.isFinite_of_toPlot? hs).2

end AxisScales

/-! ### Fitted extents -/

namespace Extent

variable {e : Extent} {values : List Float}

/-- The extent that is fitted to the values, before its length is checked. -/
def fit (values : List Float) : Extent :=
  ((ofValues? values).map widen).getD unit

/-- The bounds are among the values. -/
structure Attained (e : Extent) (values : List Float) : Prop where
  /-- The lower bound is a value. -/
  min_mem : e.min ∈ values
  /-- The upper bound is a value. -/
  max_mem : e.max ∈ values
  /-- The bounds were not moved. -/
  widened_eq : e.widened = false

/-- One more value becomes a bound or leaves it as it is. -/
theorem Attained.enlarge (h : e.Attained values) (v : Float) :
    (e.enlarge v).Attained (values ++ [v]) := by
  refine ⟨?_, ?_, rfl⟩
  · simp only [Extent.enlarge, lesser]
    split
    · exact List.mem_append_right _ (List.mem_singleton_self v)
    · exact List.mem_append_left _ h.min_mem
  · simp only [Extent.enlarge, greater]
    split
    · exact List.mem_append_right _ (List.mem_singleton_self v)
    · exact List.mem_append_left _ h.max_mem

/-- So do any number of them. -/
theorem Attained.foldl (h : e.Attained values) (rest : List Float) :
    (rest.foldl Extent.enlarge e).Attained (values ++ rest) := by
  induction rest generalizing e values with
  | nil => simpa using h
  | cons v rest ih => simpa using ih (h.enlarge v)

/-- The bounds of the interval from the least to the greatest value are among the values. -/
theorem attained_of_ofValues? (h : ofValues? values = some e) : e.Attained values := by
  cases values with
  | nil => cases h
  | cons v rest =>
    obtain rfl := Option.some.inj h
    have hfirst : Attained ⟨v, v, false⟩ [v] := ⟨by simp, by simp, rfl⟩
    exact hfirst.foldl rest

/-- Without a value the unit interval is fitted; otherwise an interval that covers the values and
attains its bounds is widened. -/
theorem fit_cases (hfinite : ∀ v ∈ values, v.isFinite = true) :
    values = [] ∧ fit values = unit ∨
      ∃ e, ofValues? values = some e ∧ fit values = e.widen ∧ e.Covers values ∧
        e.Attained values := by
  unfold fit
  cases h : ofValues? values with
  | none =>
    refine Or.inl ⟨?_, rfl⟩
    cases values with
    | nil => rfl
    | cons v rest => cases h
  | some e => exact Or.inr ⟨e, rfl, rfl, covers_of_ofValues? h hfinite, attained_of_ofValues? h⟩

/-- A tenth is between a sixteenth and one. -/
theorem value_tenth :
    (0.1 : Float).isFinite = true ∧ 1 / 16 ≤ value 0.1 ∧ value 0.1 ≤ 1 := by
  have htenth : (0.1 : Float).isFinite = true := rfl
  have hsixteenth : (0.0625 : Float).isFinite = true := rfl
  have hvalue : value 0.0625 = 1 / 16 := by
    have hmagnitude : Magnitude.ofFloat 0.0625 = ⟨2 ^ 52, -56, true⟩ := rfl
    have hsign : Magnitude.sign 0.0625 = .positive := rfl
    rw [value, hmagnitude, hsign, Magnitude.signed]
    norm_num [Magnitude.value]
  have hlow : value 0.0625 ≤ value 0.1 := (le_iff hsixteenth htenth).mp (by decide +kernel)
  have hhigh : value 0.1 ≤ value 1 := (le_iff htenth value_one.1).mp (by decide +kernel)
  rw [hvalue] at hlow
  rw [value_one.2] at hhigh
  exact ⟨htenth, hlow, hhigh⟩

/-- A tenth of the size of a finite bound is finite. -/
theorem isFinite_tenth (h : e.min.isFinite = true) : (e.min.abs * 0.1).isFinite = true := by
  obtain ⟨htenth, hlow, hhigh⟩ := value_tenth
  obtain ⟨habsFinite, habs⟩ := value_abs h
  have hsize : 0 ≤ value e.min.abs := habs ▸ abs_nonneg _
  exact ((roundsTo_mul habsFinite htenth).between value_zero.1 habsFinite
    (by rw [value_zero.2]; exact mul_nonneg hsize (by linarith))
    (mul_le_of_le_one_right hsize hhigh)).1

/-- The distance that coinciding bounds are moved is at least one, and it is not lost next to the
bounds. -/
theorem le_pad (h : e.min.isFinite = true) :
    1 ≤ value e.pad ∧ |value e.min| ≤ 32 * value e.pad := by
  obtain ⟨htenth, hlow, -⟩ := value_tenth
  obtain ⟨habsFinite, habs⟩ := value_abs h
  have hfinite := isFinite_tenth h
  have hsize := abs_nonneg (value e.min)
  have hproduct := roundsTo_mul habsFinite htenth
  rw [habs] at hproduct
  have hpad : value e.pad = Max.max (value (e.min.abs * 0.1)) 1 := by
    rw [← value_one.2]
    exact (value_greater hfinite value_one.1).2
  rw [hpad]
  refine ⟨le_max_right _ _, ?_⟩
  rcases le_or_gt |value e.min| 16 with hsmall | hlarge
  · linarith [le_max_right (value (e.min.abs * 0.1)) 1]
  · -- A tenth of such a size is at least one, and rounding takes less than a half of it.
    have hpart : |value e.min| * (1 / 16) ≤ |value e.min| * value 0.1 :=
      mul_le_mul_of_nonneg_left hlow hsize
    have hone : 1 ≤ value (e.min.abs * 0.1) := by
      have := (roundsTo_value value_one.1).value_le hproduct
        (by rw [value_one.2]; linarith) value_one.1 hfinite
      rwa [value_one.2] at this
    have hnormal : (2 : ℚ) ^ (-1022 : ℤ) ≤ 1 := zpow_le_one_of_nonpos₀ (by norm_num) (by norm_num)
    have hclose := hproduct.le_of_normal hfinite (by linarith) (hnormal.trans hone)
    linarith [le_max_left (value (e.min.abs * 0.1)) 1]

/-- Coinciding bounds that are moved apart differ, if their distance is finite. -/
theorem value_lt_of_moved (hmin : e.min.isFinite = true) (hmax : e.max.isFinite = true)
    (heq : value e.min = value e.max) (hlow : (e.min - e.pad).isFinite = true)
    (hhigh : (e.max + e.pad).isFinite = true) : value (e.min - e.pad) < value (e.max + e.pad) := by
  obtain ⟨hpad, hnonneg⟩ := pad_nonneg hmin
  obtain ⟨hone, hsize⟩ := le_pad hmin
  have hdown := roundsTo_sub hmin hpad
  have hup := roundsTo_add hmax hpad
  have hbelow : value (e.min - e.pad) ≤ value e.min :=
    hdown.value_le (roundsTo_value hmin) (by linarith) hlow hmin
  have habove : value e.max ≤ value (e.max + e.pad) :=
    (roundsTo_value hmax).value_le hup (by linarith) hmax hhigh
  -- The bound that moves away from zero does move.
  rcases le_total 0 (value e.min) with hsign | hsign
  · rw [abs_of_nonneg hsign, heq] at hsize
    have := hup.lt_value_add hhigh (heq ▸ hsign) hone hsize
    linarith
  · rw [abs_of_nonpos hsign] at hsize
    have hopposite := hdown.opposite hlow
    rw [neg_sub', sub_neg_eq_add] at hopposite
    have := hopposite.lt_value_add (value_neg hlow).1 (by linarith) hone hsize
    rw [(value_neg hlow).2] at this
    linarith

/-- Bounds with different values are kept, and bounds with the same value are moved apart. -/
theorem widen_cases (hmin : e.min.isFinite = true) (hmax : e.max.isFinite = true) :
    value e.min ≠ value e.max ∧ e.widen = e ∨
      value e.min = value e.max ∧ e.widen = ⟨e.min - e.pad, e.max + e.pad, true⟩ := by
  have hbeq := beq_iff hmin hmax
  cases h : e.min == e.max with
  | false =>
    have hne : (e.min != e.max) = true := by rw [bne, h]; rfl
    exact Or.inl ⟨fun heq => absurd (h.symm.trans (hbeq.mpr heq)) (by decide), widen_of_ne hne⟩
  | true =>
    have hnot : ¬ (e.min != e.max) = true := by simp [bne, h]
    exact Or.inr ⟨hbeq.mp h, if_neg hnot⟩

/-- A widened interval with a finite length has bounds that differ. -/
theorem value_lt_of_widen (h : e.Covers values) (ha : e.Attained values)
    (hspan : e.widen.span.isFinite = true) : value e.widen.min < value e.widen.max := by
  rcases widen_cases h.isFinite_min h.isFinite_max with ⟨hne, hwiden⟩ | ⟨heq, hwiden⟩
  · rw [hwiden]
    exact (h.shows _ ha.min_mem).le_max.lt_of_ne hne
  · rw [hwiden] at hspan ⊢
    obtain ⟨hhigh, hlow⟩ := isFinite_of_sub hspan
    exact value_lt_of_moved h.isFinite_min h.isFinite_max heq hlow hhigh

/-- If the length of a fitted interval is finite, its bounds differ. -/
theorem value_lt_of_fit (hfinite : ∀ v ∈ values, v.isFinite = true)
    (hspan : (fit values).span.isFinite = true) :
    value (fit values).min < value (fit values).max := by
  rcases fit_cases hfinite with ⟨-, hfit⟩ | ⟨e, -, hfit, hcovers, hattained⟩
  · rw [hfit]
    change value 0 < value 1
    rw [value_zero.2, value_one.2]
    exact zero_lt_one
  · rw [hfit] at hspan ⊢
    exact value_lt_of_widen hcovers hattained hspan

/-- A fitted interval of finite length is usable. -/
theorem isUsable_fit (hfinite : ∀ v ∈ values, v.isFinite = true) :
    (fit values).isUsable = (fit values).span.isFinite := by
  cases hspan : (fit values).span.isFinite with
  | false => simp [isUsable, hspan]
  | true =>
    obtain ⟨hmax, hmin⟩ := isFinite_of_sub hspan
    have hpos := pos_of_sub hmax hmin (value_lt_of_fit hfinite hspan) hspan
    have hnot : ¬ (fit values).span ≤ 0 := by
      rw [le_iff hspan value_zero.1, value_zero.2]
      exact not_le.mpr hpos
    simp [isUsable, hspan, hnot]

/-- A fitted interval of finite length covers the values. -/
theorem covers_fit (hfinite : ∀ v ∈ values, v.isFinite = true)
    (hspan : (fit values).span.isFinite = true) : (fit values).Covers values := by
  have husable := (isUsable_fit hfinite).trans hspan
  rcases fit_cases hfinite with ⟨rfl, hfit⟩ | ⟨e, -, hfit, hcovers, -⟩
  · rw [hfit]
    exact ⟨value_zero.1, value_one.1, by simp⟩
  · rw [hfit] at husable ⊢
    exact hcovers.widen husable

/-- The extent of an axis is the fitted one, if its length is finite. -/
theorem resolve_eq (axis : Axis) (hfinite : ∀ v ∈ values, v.isFinite = true) :
    resolve axis values =
      if (fit values).span.isFinite then .ok (fit values)
      else .error (.noSpan axis (fit values)) := by
  have husable := isUsable_fit hfinite
  rcases fit_cases hfinite with ⟨rfl, hfit⟩ | ⟨e, hsome, hfit, -, -⟩
  · have hunit : unit.span.isFinite = true := by decide +kernel
    rw [hfit, if_pos hunit]
    rfl
  · rw [hfit] at husable ⊢
    simp only [resolve, hsome, husable]

/-- The extent is the interval from the least to the greatest value, moved apart only if there are
no two different values. -/
structure Tight (e : Extent) (values : List Float) : Prop where
  /-- The bounds differ. -/
  min_lt_max : e.min < e.max
  /-- The values lie between the bounds. -/
  contains : ∀ v ∈ values, e.min ≤ v ∧ v ≤ e.max
  /-- The bounds are moved exactly if there is no value or all values are equal. -/
  widened_iff : e.widened = true ↔ values = [] ∨ ∀ v ∈ values, ∀ w ∈ values, (v == w) = true
  /-- Without a value the unit interval is shown. -/
  eq_unit : values = [] → e = unit
  /-- Bounds that are not moved are attained. -/
  attained : e.widened = false → e.min ∈ values ∧ e.max ∈ values

/-- An interval that covers its values and attains its bounds is widened exactly if all values are
equal. -/
theorem widened_widen_iff (h : e.Covers values) (ha : e.Attained values) :
    e.widen.widened = true ↔ ∀ v ∈ values, ∀ w ∈ values, (v == w) = true := by
  rcases widen_cases h.isFinite_min h.isFinite_max with ⟨hne, hwiden⟩ | ⟨heq, hwiden⟩
  · rw [hwiden, ha.widened_eq]
    refine iff_of_false (by decide) fun hall => hne ?_
    exact (beq_iff h.isFinite_min h.isFinite_max).mp (hall _ ha.min_mem _ ha.max_mem)
  · rw [hwiden]
    refine iff_of_true rfl fun v hv w hw => ?_
    obtain ⟨hvFinite, hvLow, hvHigh⟩ := h.shows v hv
    obtain ⟨hwFinite, hwLow, hwHigh⟩ := h.shows w hw
    exact (beq_iff hvFinite hwFinite).mpr (by linarith)

/-- A fitted interval of finite length is tight. -/
theorem tight_fit (hfinite : ∀ v ∈ values, v.isFinite = true)
    (hspan : (fit values).span.isFinite = true) : (fit values).Tight values := by
  have hcovered := covers_fit hfinite hspan
  have hordered : (fit values).min < (fit values).max :=
    (lt_iff hcovered.isFinite_min hcovered.isFinite_max).mpr (value_lt_of_fit hfinite hspan)
  have hcontains : ∀ v ∈ values, (fit values).min ≤ v ∧ v ≤ (fit values).max := by
    intro v hv
    obtain ⟨hv, hlow, hhigh⟩ := hcovered.shows v hv
    exact ⟨(le_iff hcovered.isFinite_min hv).mpr hlow, (le_iff hv hcovered.isFinite_max).mpr hhigh⟩
  refine ⟨hordered, hcontains, ?_, ?_, ?_⟩
  all_goals rcases fit_cases hfinite with ⟨rfl, hfit⟩ | ⟨e, -, hfit, hcovers, hattained⟩
  · exact hfit ▸ iff_of_true rfl (Or.inl rfl)
  · rw [hfit, widened_widen_iff hcovers hattained,
      or_iff_right (List.ne_nil_of_mem hattained.min_mem)]
  · exact fun _ => hfit
  · exact fun hnil => absurd hnil (List.ne_nil_of_mem hattained.min_mem)
  · rw [hfit]
    intro hwidened
    cases hwidened
  · rw [hfit]
    intro hwidened
    rcases widen_cases hcovers.isFinite_min hcovers.isFinite_max with ⟨-, hkept⟩ | ⟨-, hmoved⟩
    · rw [hkept]
      exact ⟨hattained.min_mem, hattained.max_mem⟩
    · rw [hmoved] at hwidened
      cases hwidened

end Extent

/-! ### Mappings -/

namespace Canvas

variable {c : Canvas}

/-- The mapping of series against the extents that are fitted to their survivors. -/
def fitted (c : Canvas) (scales : AxisScales) (series : List (List Sample)) : Mapping :=
  let xExtent := Extent.fit (scales.values .x series)
  let yExtent := Extent.fit (scales.values .y series)
  ⟨xExtent, yExtent, (scales.survivors series).map fun samples =>
    (samples.filterMap scales.plot?).map (c.place xExtent yExtent)⟩

/-- Series are mapped into a sound drawing against the fitted extents, unless one of these has no
finite length. -/
theorem map_eq (h : c.fault? = none) (scales : AxisScales) (series : List (List Sample)) :
    c.map scales series =
      if (Extent.fit (scales.values .x series)).span.isFinite then
        if (Extent.fit (scales.values .y series)).span.isFinite then .ok (c.fitted scales series)
        else .error (.noSpan .y (Extent.fit (scales.values .y series)))
      else .error (.noSpan .x (Extent.fit (scales.values .x series))) := by
  have hx := Extent.resolve_eq .x (scales.isFinite_values .x series)
  have hy := Extent.resolve_eq .y (scales.isFinite_values .y series)
  have hxValues := scales.values_eq .x series
  have hyValues := scales.values_eq .y series
  simp only [PlottedSample.coordinate] at hxValues hyValues
  simp only [map, h, mapSeries]
  rw [hxValues, hyValues, hx, hy]
  cases (Extent.fit (scales.values .x series)).span.isFinite with
  | false => rfl
  | true =>
    cases (Extent.fit (scales.values .y series)).span.isFinite with
    | false => rfl
    | true => simp [fitted, AxisScales.survivors, AxisScales.filterMap_plot?_filter]

/-- Series are mapped just if both fitted extents have a finite length. -/
theorem map_eq_ok_iff (h : c.fault? = none) {scales : AxisScales} {series : List (List Sample)}
    {m : Mapping} : c.map scales series = .ok m ↔
      (∀ axis, (Extent.fit (scales.values axis series)).span.isFinite = true) ∧
        m = c.fitted scales series := by
  rw [map_eq h]
  constructor
  · intro hm
    split at hm
    · next hx =>
      split at hm
      · next hy =>
        cases hm
        exact ⟨fun axis => by cases axis with | x => exact hx | y => exact hy, rfl⟩
      · cases hm
    · cases hm
  · rintro ⟨hspan, rfl⟩
    rw [if_pos (hspan .x), if_pos (hspan .y)]

/-- What is mapped, is mapped against fitted extents of finite length. -/
theorem fitted_of_map {scales : AxisScales} {series : List (List Sample)} {m : Mapping}
    (hm : c.map scales series = .ok m) :
    (∀ axis, (Extent.fit (scales.values axis series)).span.isFinite = true) ∧
      m = c.fitted scales series := by
  have hfault : c.fault? = none := by
    unfold map at hm
    split at hm
    · cases hm
    · assumption
  exact (map_eq_ok_iff hfault).mp hm

/-- Mapping sees the survivors alone. -/
theorem map_congr (h : c.fault? = none) (scales : AxisScales) {series other : List (List Sample)}
    (hsurvivors : scales.survivors other = scales.survivors series) :
    c.map scales other = c.map scales series := by
  have hvalues : ∀ axis, scales.values axis other = scales.values axis series := fun axis => by
    rw [AxisScales.values, AxisScales.values, hsurvivors]
  have hfitted : c.fitted scales other = c.fitted scales series := by
    simp only [fitted, hvalues, hsurvivors]
  rw [map_eq h, map_eq h, hfitted, hvalues, hvalues]

end Canvas

/-- A mapping that has the survivors of each series, in order and unchanged, against tight
extents. -/
structure Mapping.Tight (m : Mapping) (scales : AxisScales) (series : List (List Sample)) :
    Prop where
  /-- Each mapped series has the survivors of its series. -/
  samples_eq : (m.series.map fun row => row.map MappedSample.sample) = scales.survivors series
  /-- Each extent is tight for the values of all survivors. -/
  tight : ∀ axis, (m.extent axis).Tight (scales.values axis series)

namespace Canvas

variable {c : Canvas}

/-- The samples of a mapping against fitted extents are the survivors. -/
theorem samples_fitted (c : Canvas) (scales : AxisScales) (series : List (List Sample)) :
    ((c.fitted scales series).series.map fun row => row.map MappedSample.sample) =
      scales.survivors series := by
  have hrow : ∀ samples : List Sample,
      (samples.filterMap scales.plot?).map PlottedSample.sample = samples.filter scales.shows := by
    intro samples
    rw [List.map_filterMap, ← List.filterMap_eq_filter]
    exact List.filterMap_congr fun s _ => scales.sample_plot? s
  simp only [fitted, AxisScales.survivors, List.map_map, Function.comp_def]
  refine List.map_congr_left fun samples _ => ?_
  -- A place keeps the sample that it is given to.
  rw [AxisScales.filterMap_plot?_filter]
  exact hrow samples

/-- Mapping into a sound drawing keeps exactly the samples that both axes can show, against tight
extents, whatever the other samples are. It fails only if there are survivors and the extent that is
fitted to them has no finite length. -/
theorem map_tight (c : Canvas) (scales : AxisScales) (series : List (List Sample))
    (h : c.fault? = none) :
    (∀ m, c.map scales series = .ok m → m.Tight scales series) ∧
      (∀ other, scales.survivors other = scales.survivors series →
        c.map scales other = c.map scales series) ∧
      ∀ e, c.map scales series = .error e →
        e.kindName = "DegenerateAndUnrecoverable" ∧ (scales.survivors series).flatten ≠ [] ∧
          ∃ axis, e = .noSpan axis (Extent.fit (scales.values axis series)) ∧
            (Extent.fit (scales.values axis series)).span.isFinite = false := by
  refine ⟨fun m hm => ?_, fun other hother => map_congr h scales hother, fun e he => ?_⟩
  · obtain ⟨hspan, rfl⟩ := (map_eq_ok_iff h).mp hm
    refine ⟨samples_fitted c scales series, fun axis => ?_⟩
    have htight := Extent.tight_fit (scales.isFinite_values axis series) (hspan axis)
    cases axis <;> exact htight
  · obtain ⟨axis, rfl, hspan⟩ : ∃ axis, e = .noSpan axis (Extent.fit (scales.values axis series)) ∧
        (Extent.fit (scales.values axis series)).span.isFinite = false := by
      rw [map_eq h] at he
      split at he
      · split at he
        · cases he
        · next hy => cases he; exact ⟨.y, rfl, by simpa using hy⟩
      · next hx => cases he; exact ⟨.x, rfl, by simpa using hx⟩
    refine ⟨rfl, fun hnone => ?_, axis, rfl, hspan⟩
    have hunit : Extent.unit.span.isFinite = true := by decide +kernel
    have hnil : scales.values axis series = [] := by rw [AxisScales.values, hnone]; rfl
    rw [hnil] at hspan
    exact absurd (hunit.symm.trans hspan) (by decide)

/-- Two series in the standard drawing, the first one with a point without a height, and a series
that is too wide for it. -/
theorem map_tight_standard :
    (∃ m, DrawingOptions.standard.canvas.map ⟨.linear, .linear⟩
        [[⟨0, 0⟩, ⟨0.5, Double.nan⟩, ⟨1, 2⟩], []] = .ok m ∧
      m.Tight ⟨.linear, .linear⟩ [[⟨0, 0⟩, ⟨0.5, Double.nan⟩, ⟨1, 2⟩], []]) ∧
    ∃ e, DrawingOptions.standard.canvas.map ⟨.linear, .linear⟩
        [[⟨-1.5e308, 0⟩, ⟨1.5e308, 0⟩]] = .error e ∧ e.kindName = "DegenerateAndUnrecoverable" := by
  have hfault : DrawingOptions.standard.canvas.fault? = none := by decide +kernel
  have hok : (DrawingOptions.standard.canvas.map ⟨.linear, .linear⟩
      [[⟨0, 0⟩, ⟨0.5, Double.nan⟩, ⟨1, 2⟩], []]).toBool = true := by decide +kernel
  have herror : (DrawingOptions.standard.canvas.map ⟨.linear, .linear⟩
      [[⟨-1.5e308, 0⟩, ⟨1.5e308, 0⟩]]).toBool = false := by decide +kernel
  constructor
  · cases hm : DrawingOptions.standard.canvas.map ⟨.linear, .linear⟩
        [[⟨0, 0⟩, ⟨0.5, Double.nan⟩, ⟨1, 2⟩], []] with
    | error e => rw [hm] at hok; cases hok
    | ok m => exact ⟨m, rfl, (map_tight _ _ _ hfault).1 m hm⟩
  · cases he : DrawingOptions.standard.canvas.map ⟨.linear, .linear⟩
        [[⟨-1.5e308, 0⟩, ⟨1.5e308, 0⟩]] with
    | ok m => rw [he] at herror; cases herror
    | error e => exact ⟨e, rfl, ((map_tight _ _ _ hfault).2.2 e he).1⟩

end Canvas

end CurvePlot
