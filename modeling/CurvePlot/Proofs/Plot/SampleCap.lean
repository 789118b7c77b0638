import CurvePlot.Plot.Sample
import CurvePlot.Proofs.Formula.NormalizedDomain
import CurvePlot.Proofs.Number.IntegerGaps

/-!
# The number of samples and its cap

A step is widened so that the grid keeps to the greatest number of samples, the cap. The length is
divided by the intervals, the count divides it by this step again, and both quotients are rounded.
If the step needs no widening, or is a normal double after it, the two roundings together add less
than half an interval, and the count keeps to the cap. A widened step below the normal doubles may
have been rounded down by up to a third of the exact quotient, so that there may be more points than
allowed, yet never more than twice as many (`normalized_and_read_sampleCount`). In this case the
tolerance of the count makes no difference, and the count keeps to the cap just if the exact length
in steps is below the upper half of the gap between the cap and the double before it.
-/

namespace CurvePlot

open Double

/-- A natural number of less than 64 binary digits has a double of at most `2 ^ 63`. -/
theorem Double.value_nat_le {n : ℕ} (hn : n < 2 ^ 63) :
    n.toFloat.isFinite = true ∧ value n.toFloat ≤ 9223372036854775808 := by
  obtain ⟨u, hu, hvalue⟩ := exists_value_eq_mul (s := 1) (by norm_num) (e := 63) (by norm_num)
    (by norm_num)
  norm_num at hvalue
  have hnQ : (n : ℚ) ≤ 9223372036854775808 := by exact_mod_cast hn.le
  obtain ⟨hfinite, -, hle⟩ := (roundsTo_nat n).between value_zero.1 hu
    (by rw [value_zero.2]; exact Nat.cast_nonneg n) (by rw [hvalue]; exact hnQ)
  exact ⟨hfinite, hvalue ▸ hle⟩

namespace Domain

/-- The length of a domain in steps. -/
def steps (d : Domain) : Float :=
  (d.max - d.min) / d.step

/-- When the grid of a normalized domain keeps to its cap. -/
inductive KeepsCap (d : Domain) (family : Family) (maxSamples : ℕ) : Prop where
  /-- The requested step needs no widening. -/
  | fits (h : ¬ (Nat.max maxSamples 2).toFloat <
      ((d.normalized family maxSamples).max - (d.normalized family maxSamples).min) /
        d.positiveStep family + 1)
  /-- The step is a normal double. -/
  | normal (h : 2 ^ (-1022 : ℤ) ≤ value (d.normalized family maxSamples).step)
  /-- The length is less than so many steps as the cap says, by more than half the distance from the
  cap to the double below it. -/
  | short (h : value ((d.normalized family maxSamples).max - (d.normalized family maxSamples).min) <
      ((Nat.max maxSamples 2 : ℕ) - halfGapBelow (Nat.max maxSamples 2)) *
        value (d.normalized family maxSamples).step)

/-- The tolerance is less than `2 ^ (-28)`. -/
theorem value_countTolerance :
    countTolerance.isFinite = true ∧ 0 ≤ value countTolerance ∧
      value countTolerance < 2 ^ (-28 : ℤ) := by
  have hmagnitude : Magnitude.ofFloat countTolerance = ⟨4835703278458517, -82, false⟩ := rfl
  have hsign : Magnitude.sign countTolerance = .positive := rfl
  rw [value, hmagnitude, hsign, Magnitude.signed]
  refine ⟨rfl, Magnitude.value_nonneg _, ?_⟩
  norm_num [Magnitude.value]

namespace WellFormed

variable {d : Domain}

/-- The step as a number. -/
theorem value_step_pos (h : d.WellFormed) : 0 < value d.step := by
  have hpos := (lt_iff value_zero.1 h.isFinite_step).mp h.step_pos
  rwa [value_zero.2] at hpos

/-- The length as a number. -/
theorem value_span_nonneg (h : d.WellFormed) : 0 ≤ value (d.max - d.min) := by
  have horder := (lt_iff h.isFinite_min h.isFinite_max).mp h.min_lt_max
  exact (roundsTo_sub h.isFinite_max h.isFinite_min).zero_le_value h.isFinite_span (by linarith)

/-- The length in steps is correctly rounded. -/
theorem roundsTo_steps (h : d.WellFormed) :
    RoundsTo (value (d.max - d.min) / value d.step) d.steps :=
  roundsTo_div h.isFinite_span h.isFinite_step h.value_step_pos.ne'

/-- It is not negative. -/
theorem quotient_nonneg (h : d.WellFormed) : 0 ≤ value (d.max - d.min) / value d.step :=
  div_nonneg h.value_span_nonneg h.value_step_pos.le

/-- A bound on the exact quotient that a double has is one on the rounded quotient. -/
theorem steps_le (h : d.WellFormed) {u : Float} (hu : u.isFinite = true)
    (hle : value (d.max - d.min) / value d.step ≤ value u) :
    d.steps.isFinite = true ∧ value d.steps ≤ value u := by
  obtain ⟨hfinite, -, hsteps⟩ := h.roundsTo_steps.between value_zero.1 hu
    (by rw [value_zero.2]; exact h.quotient_nonneg) hle
  exact ⟨hfinite, hsteps⟩

/-- The points of a well-formed domain are counted from its length in steps. -/
theorem sampleCount?_eq (h : d.WellFormed) :
    d.sampleCount? = if (d.steps + countTolerance).toUInt64.toNat + 1 < UInt64.size then
      some ((d.steps + countTolerance).toUInt64.toNat + 1) else none := by
  have hnan := (isNaN_isInf_of_isFinite h.isFinite_step).1
  have hstep : ¬ d.step ≤ 0 := by
    rw [le_iff h.isFinite_step value_zero.1, value_zero.2]
    exact not_le.mpr h.value_step_pos
  have hbounds : ¬ d.max < d.min := by
    rw [lt_iff h.isFinite_max h.isFinite_min]
    exact not_lt.mpr ((lt_iff h.isFinite_min h.isFinite_max).mp h.min_lt_max).le
  have hguard : ¬ (d.step.isNaN || decide (d.step ≤ 0) || decide (d.max < d.min)) = true := by
    rw [hnan, decide_eq_false hstep, decide_eq_false hbounds]
    decide
  unfold sampleCount?
  rw [if_neg hguard]
  rfl

/-- The quotient with the tolerance is dropped to a whole number. -/
theorem sampleCount?_eq_floor (h : d.WellFormed) (hsteps : d.steps.isFinite = true) {u : Float}
    (hu : u.isFinite = true) (hlt : value u + 1 < 2 ^ 64)
    (hle : value d.steps + value countTolerance ≤ value u) :
    (d.steps + countTolerance).isFinite = true ∧ 0 ≤ value (d.steps + countTolerance) ∧
      value (d.steps + countTolerance) ≤ value u ∧
        d.sampleCount? = some (⌊value (d.steps + countTolerance)⌋₊ + 1) := by
  obtain ⟨htolerance, hnonneg, -⟩ := value_countTolerance
  have hsteps0 := h.roundsTo_steps.zero_le_value hsteps h.quotient_nonneg
  obtain ⟨hfinite, hlow, hhigh⟩ := (roundsTo_add hsteps htolerance).between value_zero.1 hu
    (by rw [value_zero.2]; exact add_nonneg hsteps0 hnonneg) hle
  rw [value_zero.2] at hlow
  have hcount := toNat_toUInt64 hfinite hlow (by linarith)
  have hsize : ⌊value (d.steps + countTolerance)⌋₊ + 1 < UInt64.size := by
    have hfloor := Nat.floor_le hlow
    have hless : ((⌊value (d.steps + countTolerance)⌋₊ + 1 : ℕ) : ℚ) < (2 ^ 64 : ℕ) := by
      push_cast
      linarith
    exact_mod_cast hless
  exact ⟨hfinite, hlow, hhigh, by rw [h.sampleCount?_eq, hcount, if_pos hsize]⟩

/-- The points of a domain of at most `2 ^ 53` steps are no more than a cap just if the length in
steps, with the tolerance, is below the upper half of the gap under the cap. -/
theorem sampleCount_le_iff (h : d.WellFormed) (hsteps : d.steps.isFinite = true)
    (hbound : value d.steps ≤ 2 ^ 53) {cap : ℕ} (h2 : 2 ≤ cap) (hcap : cap ≤ 2 ^ 52) :
    d.sampleCount ≤ cap ↔ value d.steps + value countTolerance < cap - halfGapBelow cap := by
  obtain ⟨htolerance, hnonneg, hsmall⟩ := value_countTolerance
  have hsteps0 := h.roundsTo_steps.zero_le_value hsteps h.quotient_nonneg
  obtain ⟨u, hu, hvalue⟩ := exists_value_eq_mul (s := 1) (by norm_num) (e := 54) (by norm_num)
    (by norm_num)
  have hpower : value u = 2 ^ 54 := by
    rw [hvalue]
    norm_num
  obtain ⟨hfinite, hlow, -, hcount⟩ := h.sampleCount?_eq_floor hsteps hu
    (by rw [hpower]; norm_num) (by rw [hpower]; norm_num at hbound hsmall ⊢; linarith)
  rw [sampleCount, hcount, Option.getD_some, ← (roundsTo_add hsteps htolerance).value_lt_natCast_iff
    hfinite (add_nonneg hsteps0 hnonneg) h2 hcap, ← Nat.floor_lt hlow]
  exact Nat.succ_le_iff

/-- At most half a step above a whole number of steps the last counted point is that one. -/
theorem sampleCount_le_of_steps_le (h : d.WellFormed) (hsteps : d.steps.isFinite = true) {cap : ℕ}
    (h2 : 2 ≤ cap) (hcap : cap ≤ 2 ^ 52) (hle : value d.steps ≤ cap - 1 / 2) :
    d.sampleCount ≤ cap := by
  obtain ⟨-, -, hsmall⟩ := value_countTolerance
  obtain ⟨-, hgap⟩ := halfGapBelow_pos_le hcap
  have hcapQ : (cap : ℚ) ≤ 4503599627370496 := by exact_mod_cast hcap
  norm_num at hsmall
  exact (h.sampleCount_le_iff hsteps (by linarith) h2 hcap).mpr (by linarith)

/-- So it is if the length itself is at most half a step above the last interval. -/
theorem sampleCount_le_of_span_le (h : d.WellFormed) {cap : ℕ} (h2 : 2 ≤ cap) (hcap : cap ≤ 2 ^ 52)
    (hle : value (d.max - d.min) ≤ (cap - 1 / 2) * value d.step) : d.sampleCount ≤ cap := by
  obtain ⟨u, hu, hvalue⟩ := exists_value_eq_mul (s := 2 * cap - 1) (by omega) (e := -1)
    (by norm_num) (by norm_num)
  have hhalf : value u = cap - 1 / 2 := by
    rw [hvalue, zpow_neg_one, Nat.cast_sub (by omega)]
    push_cast
    ring
  obtain ⟨hsteps, hbound⟩ := h.steps_le hu (by rwa [hhalf, div_le_iff₀ h.value_step_pos])
  exact h.sampleCount_le_of_steps_le hsteps h2 hcap (hhalf ▸ hbound)

/-- If the points are no more than the cap, the exact length in steps is below that half as well. -/
theorem span_lt_of_sampleCount_le (h : d.WellFormed) (hsteps : d.steps.isFinite = true)
    (hbound : value d.steps ≤ 2 ^ 53) {cap : ℕ} (h2 : 2 ≤ cap) (hcap : cap ≤ 2 ^ 52)
    (hcount : d.sampleCount ≤ cap) :
    value (d.max - d.min) < (cap - halfGapBelow cap) * value d.step := by
  obtain ⟨-, hnonneg, -⟩ := value_countTolerance
  obtain ⟨hpositive, -⟩ := halfGapBelow_pos_le hcap
  have hless := (h.sampleCount_le_iff hsteps hbound h2 hcap).mp hcount
  have hquotient := (h.roundsTo_steps.value_lt_natCast_iff hsteps h.quotient_nonneg h2 hcap).mp
    (by linarith)
  rwa [div_lt_iff₀ h.value_step_pos] at hquotient

/-- The length and the step are whole numbers of least units. A length of fewer steps than `n` lacks
at least one unit, which is not lost in the quotient by a step of at most `2 ^ 26` of them. -/
theorem quotient_le_of_units (h : d.WellFormed) {n : ℕ}
    (hunits : value d.step ≤ 2 ^ 26 * 2 ^ (-1074 : ℤ))
    (hlength : value (d.max - d.min) < n * value d.step) :
    value (d.max - d.min) / value d.step ≤ n - 2 ^ (-26 : ℤ) := by
  obtain ⟨a, ha⟩ := exists_units (d.max - d.min)
  obtain ⟨b, hb⟩ := exists_units d.step
  have hunit : (0 : ℚ) < 2 ^ (-1074 : ℤ) := zpow_pos (by norm_num) _
  have hpos := h.value_step_pos
  rw [hb] at hunits hpos
  have hstep : (b : ℚ) ≤ 2 ^ 26 := le_of_mul_le_mul_right hunits hunit
  have hnext : (a : ℚ) + 1 ≤ n * b := by
    rw [ha, hb, ← mul_assoc] at hlength
    exact_mod_cast lt_of_mul_lt_mul_right hlength hunit.le
  rw [ha, hb, div_le_iff₀ hpos, ← mul_assoc]
  refine mul_le_mul_of_nonneg_right ?_ hunit.le
  norm_num at hstep ⊢
  linarith

/-- With a step of fewer least units than the cap the tolerance makes no difference: if the exact
length in steps is below the upper half of the gap, the points are no more than the cap. -/
theorem sampleCount_le_of_span_lt (h : d.WellFormed) {cap : ℕ} (h2 : 2 ≤ cap) (hcap : cap ≤ 2 ^ 52)
    (hunits : value d.step < cap * 2 ^ (-1074 : ℤ))
    (hspan : value (d.max - d.min) < (cap - halfGapBelow cap) * value d.step) :
    d.sampleCount ≤ cap := by
  obtain ⟨-, -, hsmall⟩ := value_countTolerance
  obtain ⟨hpositive, -⟩ := halfGapBelow_pos_le hcap
  obtain ⟨hfiniteCap, hvalueCap⟩ := value_nat (n := cap) (by omega)
  have hcapQ : (cap : ℚ) ≤ 4503599627370496 := by exact_mod_cast hcap
  have hquotient := (div_lt_iff₀ h.value_step_pos).mpr hspan
  obtain ⟨hsteps, hle⟩ := h.steps_le hfiniteCap (by rw [hvalueCap]; linarith)
  rw [hvalueCap] at hle
  have hsteps0 := h.roundsTo_steps.zero_le_value hsteps h.quotient_nonneg
  rw [h.sampleCount_le_iff hsteps (by linarith) h2 hcap]
  rcases le_or_gt cap (2 ^ 26) with hfew | hmany
  · -- The step is short enough for one least unit of the length to count in the quotient.
    have hunit : (0 : ℚ) < 2 ^ (-1074 : ℤ) := zpow_pos (by norm_num) _
    have hgap := halfGapBelow_le (k := 26) (by norm_num) hfew
    have hfewQ : (cap : ℚ) ≤ 2 ^ 26 := by exact_mod_cast hfew
    obtain ⟨u, hu, hvalue⟩ := exists_value_eq_mul (s := cap * 2 ^ 26 - 1) (by omega) (e := -26)
      (by norm_num) (by norm_num)
    have hbelow : value u = cap - 2 ^ (-26 : ℤ) := by
      rw [hvalue, Nat.cast_sub (by omega)]
      push_cast
      norm_num
      ring
    have hfewer : value (d.max - d.min) < cap * value d.step :=
      hspan.trans (mul_lt_mul_of_pos_right (by linarith) h.value_step_pos)
    have hunder := h.quotient_le_of_units
      (hunits.le.trans (mul_le_mul_of_nonneg_right hfewQ hunit.le)) hfewer
    obtain ⟨-, hlow⟩ := h.steps_le hu (hbelow ▸ hunder)
    rw [hbelow] at hlow
    norm_num at hsmall hgap hlow
    linarith
  · -- The doubles are so far apart here that the tolerance makes no difference.
    have hgap : (2 : ℚ) ^ (-28 : ℤ) ≤ halfGapBelow cap := by
      have hlog : 25 ≤ (cap - 1).log2 := (Nat.le_log2 (by omega)).mpr (by omega)
      exact zpow_le_zpow_right₀ (by norm_num) (by omega)
    have hless := (h.roundsTo_steps.value_lt_natCast_iff hsteps h.quotient_nonneg h2 hcap).mpr
      hquotient
    have hnext := value_add_le_natCast hsteps0 h2 hcap hless
    linarith

/-- A quotient that passes the test for a finite cap is finite, and so is the sum in the test. -/
theorem isFinite_of_fits (h : d.WellFormed) {c : Float} (hc : c.isFinite = true)
    (hfits : ¬ c < d.steps + 1) : d.steps.isFinite = true ∧ (d.steps + 1).isFinite = true := by
  have hsteps : d.steps.isFinite = true := by
    by_contra hinfinite
    rcases h.quotient_nonneg.lt_or_eq with hpos | hzero
    · exact hfits (((h.roundsTo_steps.isInfinity hpos hinfinite).add value_one.1).lt_of_isFinite hc)
    · exact hinfinite (h.steps_le value_zero.1 (by rw [← hzero, value_zero.2])).1
  have hsteps0 := h.roundsTo_steps.zero_le_value hsteps h.quotient_nonneg
  have hsum := roundsTo_add hsteps value_one.1
  rw [value_one.2] at hsum
  refine ⟨hsteps, ?_⟩
  by_contra hinfinite
  exact hfits ((hsum.isInfinity (by linarith) hinfinite).lt_of_isFinite hc)

/-- One more than such a quotient is below every double above the cap. -/
theorem steps_add_one_lt_of_fits (h : d.WellFormed) {c u : Float} (hc : c.isFinite = true)
    (hfits : ¬ c < d.steps + 1) (hu : u.isFinite = true) (hlt : value c < value u) :
    d.steps.isFinite = true ∧ value d.steps + 1 < value u := by
  obtain ⟨hsteps, hsumFinite⟩ := h.isFinite_of_fits hc hfits
  have hsum := roundsTo_add hsteps value_one.1
  rw [value_one.2] at hsum
  refine ⟨hsteps, not_le.mp fun hge => hfits ?_⟩
  rw [lt_iff hc hsumFinite]
  exact hlt.trans_le ((roundsTo_value hu).value_le hsum hge hu hsumFinite)

/-- So it is if the step is the normal double of the exact quotient. -/
theorem steps_le_of_normal (h : d.WellFormed) {n : ℕ} (hn : n < 2 ^ 52) (hpos : 0 < n)
    (hstep : d.step = (d.max - d.min) / n.toFloat) (hnormal : 2 ^ (-1022 : ℤ) ≤ value d.step) :
    d.steps.isFinite = true ∧ value d.steps ≤ n + 1 / 2 := by
  obtain ⟨hfinite, hvalue⟩ := value_nat (n := n) (by omega)
  have hnQ : (0 : ℚ) < n := by exact_mod_cast hpos
  have hnle : (n : ℚ) ≤ 4503599627370496 := by exact_mod_cast hn.le
  have hrounds := roundsTo_div h.isFinite_span hfinite (by rw [hvalue]; exact hnQ.ne')
  rw [← hstep, hvalue] at hrounds
  have hquotient := hrounds.le_of_normal h.isFinite_step
    (div_nonneg h.value_span_nonneg hnQ.le) hnormal
  obtain ⟨u, hu, hvalueU⟩ := exists_value_eq_mul (s := 2 * n + 1) (by omega) (e := -1)
    (by norm_num) (by norm_num)
  have hhalf : value u = n + 1 / 2 := by
    rw [hvalueU, zpow_neg_one]
    push_cast
    ring
  rw [← hhalf]
  refine h.steps_le hu ?_
  rw [hhalf, div_le_iff₀ h.value_step_pos]
  rw [div_le_iff₀ hnQ] at hquotient
  have hless : (n : ℚ) * (1 + 1 / 2 ^ 53) ≤ n + 1 / 2 := by
    norm_num
    linarith
  calc value (d.max - d.min) ≤ value d.step * (1 + 1 / 2 ^ 53) * n := hquotient
    _ = n * (1 + 1 / 2 ^ 53) * value d.step := by ring
    _ ≤ (n + 1 / 2) * value d.step := mul_le_mul_of_nonneg_right hless h.value_step_pos.le

/-- The step is at least two thirds of the exact quotient in any case. -/
theorem quotient_le_of_widened (h : d.WellFormed) {c : Float} (hc : c.isFinite = true)
    (hpos : 0 < value c) (hstep : d.step = (d.max - d.min) / c) :
    value (d.max - d.min) / value d.step ≤ 3 / 2 * value c := by
  have hstep0 := h.value_step_pos
  have hrounds := roundsTo_div h.isFinite_span hc hpos.ne'
  rw [← hstep] at hrounds
  have hnonneg := div_nonneg h.value_span_nonneg hpos.le
  have hquotient : value (d.max - d.min) / value c ≤ 3 / 2 * value d.step := by
    rcases le_or_gt (2 ^ (-1022 : ℤ)) (value d.step) with hnormal | hsmall
    · have hle := hrounds.le_of_normal h.isFinite_step hnonneg hnormal
      norm_num at hle
      linarith
    · have hle := hrounds.le_of_subnormal h.isFinite_step hnonneg hsmall
      have hleast : 2 ^ (-1074 : ℤ) ≤ value d.step :=
        not_lt.mp fun hlt => absurd (value_le_zero_of_lt hlt) (not_le.mpr hstep0)
      linarith
  rw [div_le_iff₀ hpos] at hquotient
  rw [div_le_iff₀ hstep0]
  linarith

/-- A subnormal step that leaves more than half a step above the last interval has fewer least units
than the cap. -/
theorem step_lt_of_subnormal (h : d.WellFormed) {cap : ℕ} (h2 : 2 ≤ cap) (hcap : cap ≤ 2 ^ 52)
    (hstep : d.step = (d.max - d.min) / (cap - 1).toFloat) (hsmall : value d.step < 2 ^ (-1022 : ℤ))
    (hlong : (cap - 1 / 2) * value d.step < value (d.max - d.min)) :
    value d.step < cap * 2 ^ (-1074 : ℤ) := by
  obtain ⟨hfinite, hvalue⟩ := value_nat (n := cap - 1) (by omega)
  rw [Nat.cast_sub (by omega), Nat.cast_one] at hvalue
  have hpos : (0 : ℚ) < cap - 1 := by
    have htwo : (2 : ℚ) ≤ cap := by exact_mod_cast h2
    linarith
  have hrounds := roundsTo_div h.isFinite_span hfinite (by rw [hvalue]; exact hpos.ne')
  rw [← hstep, hvalue] at hrounds
  have hquotient := hrounds.le_of_subnormal h.isFinite_step
    (div_nonneg h.value_span_nonneg hpos.le) hsmall
  rw [div_le_iff₀ hpos] at hquotient
  have hunit : (0 : ℚ) < 2 ^ (-1074 : ℤ) := zpow_pos (by norm_num) _
  generalize (2 : ℚ) ^ (-1074 : ℤ) = unit at *
  linarith

/-- With a subnormal widened step the points are no more than the cap if the exact length in steps is
below the upper half of the gap. -/
theorem sampleCount_le_of_subnormal (h : d.WellFormed) {cap : ℕ} (h2 : 2 ≤ cap)
    (hcap : cap ≤ 2 ^ 52) (hstep : d.step = (d.max - d.min) / (cap - 1).toFloat)
    (hsmall : value d.step < 2 ^ (-1022 : ℤ))
    (hspan : value (d.max - d.min) < (cap - halfGapBelow cap) * value d.step) :
    d.sampleCount ≤ cap := by
  rcases le_or_gt (value (d.max - d.min)) ((cap - 1 / 2) * value d.step) with hhalfway | hbeyond
  · exact h.sampleCount_le_of_span_le h2 hcap hhalfway
  · exact h.sampleCount_le_of_span_lt h2 hcap (h.step_lt_of_subnormal h2 hcap hstep hsmall hbeyond)
      hspan

/-- A length of at most three quarters of `2 ^ 64` steps is counted. -/
theorem isSome_sampleCount?_of_steps_le (h : d.WellFormed) (hsteps : d.steps.isFinite = true)
    (hle : value d.steps ≤ 3 * 2 ^ 62) : d.sampleCount?.isSome = true := by
  obtain ⟨-, -, hsmall⟩ := value_countTolerance
  obtain ⟨u, hu, hvalue⟩ := exists_value_eq_mul (s := 7) (by norm_num) (e := 61) (by norm_num)
    (by norm_num)
  norm_num at hvalue hle hsmall
  obtain ⟨-, -, -, hcount⟩ := h.sampleCount?_eq_floor hsteps hu
    (by rw [hvalue]; norm_num) (by rw [hvalue]; linarith)
  rw [hcount, Option.isSome_some]

end WellFormed

/-- A normalized step is the requested one if that keeps to the cap, and else the length divided by
the intervals. -/
theorem step_normalized (d : Domain) (family : Family) (maxSamples : ℕ) :
    let D := d.normalized family maxSamples
    let cap := Nat.max maxSamples 2
    (¬ cap.toFloat < (D.max - D.min) / d.positiveStep family + 1 →
        D.step = d.positiveStep family) ∧
      (cap.toFloat < (D.max - D.min) / d.positiveStep family + 1 →
        D.step = (D.max - D.min) / (cap - 1).toFloat) :=
  ⟨fun h => if_neg h, fun h => if_pos h⟩

/-- Where the step needs no widening, or is a normal double, the length in steps is at most half a
step above the last interval. -/
theorem steps_normalized_le (d : Domain) (family : Family) {maxSamples : ℕ}
    (hmax : maxSamples < 2 ^ 52) :
    let D := d.normalized family maxSamples
    let cap := Nat.max maxSamples 2
    ¬ cap.toFloat < (D.max - D.min) / d.positiveStep family + 1 ∨
        2 ^ (-1022 : ℤ) ≤ value D.step →
      D.steps.isFinite = true ∧ value D.steps ≤ cap - 1 / 2 := by
  have hwell := d.wellFormed_normalized family maxSamples
  have hstep := d.step_normalized family maxSamples
  have htwo : 2 ≤ Nat.max maxSamples 2 := Nat.le_max_right _ _
  have hcap : Nat.max maxSamples 2 < 2 ^ 52 := Nat.max_lt.mpr ⟨hmax, by norm_num⟩
  dsimp only at hstep ⊢
  generalize d.normalized family maxSamples = D at *
  generalize Nat.max maxSamples 2 = cap at *
  intro h
  by_cases hfits : cap.toFloat < (D.max - D.min) / d.positiveStep family + 1
  · have hnormal := h.resolve_left (not_not.mpr hfits)
    obtain ⟨hfinite, hle⟩ := hwell.steps_le_of_normal (n := cap - 1) (by omega) (by omega)
      (hstep.2 hfits) hnormal
    rw [Nat.cast_sub (by omega), Nat.cast_one] at hle
    exact ⟨hfinite, by linarith⟩
  · obtain ⟨hfiniteCap, hvalueCap⟩ := value_nat (n := cap) (by omega)
    -- Half a step above the cap is a double.
    obtain ⟨u, hu, hvalue⟩ := exists_value_eq_mul (s := 2 * cap + 1) (by omega) (e := -1)
      (by norm_num) (by norm_num)
    have hhalf : value u = cap + 1 / 2 := by
      rw [hvalue, zpow_neg_one]
      push_cast
      ring
    obtain ⟨hfinite, hless⟩ := hwell.steps_add_one_lt_of_fits hfiniteCap
      (by rwa [steps, hstep.1 hfits]) hu (by rw [hvalueCap, hhalf]; linarith)
    exact ⟨hfinite, by linarith⟩

/-- In any case the length has at most twice as many steps as there are intervals. -/
theorem steps_normalized_le_two_mul (d : Domain) (family : Family) {maxSamples : ℕ}
    (hmax : maxSamples < 2 ^ 52) :
    let D := d.normalized family maxSamples
    D.steps.isFinite = true ∧ value D.steps ≤ 2 * (Nat.max maxSamples 2 : ℕ) - 2 := by
  have hwell := d.wellFormed_normalized family maxSamples
  have hstep := d.step_normalized family maxSamples
  have hkeeps := d.steps_normalized_le family hmax
  have htwo : 2 ≤ Nat.max maxSamples 2 := Nat.le_max_right _ _
  have hcap : Nat.max maxSamples 2 < 2 ^ 52 := Nat.max_lt.mpr ⟨hmax, by norm_num⟩
  dsimp only at hstep hkeeps ⊢
  generalize d.normalized family maxSamples = D at *
  generalize Nat.max maxSamples 2 = cap at *
  have htwoQ : (2 : ℚ) ≤ cap := by exact_mod_cast htwo
  by_cases hfits : cap.toFloat < (D.max - D.min) / d.positiveStep family + 1
  · obtain ⟨hfinite, hvalue⟩ := value_nat (n := cap - 1) (by omega)
    obtain ⟨hu, hvalueU⟩ := value_nat (n := 2 * (cap - 1)) (by omega)
    rw [Nat.cast_mul, Nat.cast_ofNat] at hvalueU
    rw [Nat.cast_sub (by omega), Nat.cast_one] at hvalue hvalueU
    have hquotient := hwell.quotient_le_of_widened hfinite (by rw [hvalue]; linarith)
      (hstep.2 hfits)
    rw [hvalue] at hquotient
    obtain ⟨hsteps, hle⟩ := hwell.steps_le hu (by rw [hvalueU]; linarith)
    exact ⟨hsteps, by linarith⟩
  · obtain ⟨hfinite, hle⟩ := hkeeps (Or.inl hfits)
    exact ⟨hfinite, by linarith⟩

/-- With a cap of less than 64 binary digits the points of a normalized domain are counted. -/
theorem isSome_sampleCount?_normalized (d : Domain) (family : Family) {maxSamples : ℕ}
    (hmax : maxSamples < 2 ^ 63) :
    (d.normalized family maxSamples).sampleCount?.isSome = true := by
  have hwell := d.wellFormed_normalized family maxSamples
  have hstep := d.step_normalized family maxSamples
  have htwo : 2 ≤ Nat.max maxSamples 2 := Nat.le_max_right _ _
  have hcap : Nat.max maxSamples 2 < 2 ^ 63 := Nat.max_lt.mpr ⟨hmax, by norm_num⟩
  dsimp only at hstep
  generalize d.normalized family maxSamples = D at *
  generalize Nat.max maxSamples 2 = cap at *
  obtain ⟨u, hu, hvalue⟩ := exists_value_eq_mul (s := 3) (by norm_num) (e := 62) (by norm_num)
    (by norm_num)
  norm_num at hvalue
  by_cases hfits : cap.toFloat < (D.max - D.min) / d.positiveStep family + 1
  · obtain ⟨hfinite, hle⟩ := value_nat_le (n := cap - 1) (by omega)
    have hone := one_le_value_nat (n := cap - 1) (by omega) hfinite
    have hquotient := hwell.quotient_le_of_widened hfinite (by linarith) (hstep.2 hfits)
    obtain ⟨hsteps, hlong⟩ := hwell.steps_le hu (by rw [hvalue]; linarith)
    exact hwell.isSome_sampleCount?_of_steps_le hsteps (by norm_num; linarith)
  · obtain ⟨hfinite, hle⟩ := value_nat_le hcap
    obtain ⟨hsteps, hless⟩ := hwell.steps_add_one_lt_of_fits hfinite
      (by rwa [steps, hstep.1 hfits]) hu (by rw [hvalue]; linarith)
    exact hwell.isSome_sampleCount?_of_steps_le hsteps (by norm_num; linarith)

/-- A normalized domain has at most twice as many points as allowed. -/
theorem sampleCount_normalized_le_two_mul (d : Domain) (family : Family) {maxSamples : ℕ}
    (hmax : maxSamples < 2 ^ 52) :
    (d.normalized family maxSamples).sampleCount ≤ 2 * Nat.max maxSamples 2 := by
  have hwell := d.wellFormed_normalized family maxSamples
  obtain ⟨hfinite, hle⟩ := d.steps_normalized_le_two_mul family hmax
  obtain ⟨-, -, hsmall⟩ := value_countTolerance
  have htwo : 2 ≤ Nat.max maxSamples 2 := Nat.le_max_right _ _
  have hcap : Nat.max maxSamples 2 < 2 ^ 52 := Nat.max_lt.mpr ⟨hmax, by norm_num⟩
  generalize d.normalized family maxSamples = D at *
  generalize Nat.max maxSamples 2 = cap at *
  have hcapQ : (cap : ℚ) ≤ 4503599627370496 := by exact_mod_cast hcap.le
  obtain ⟨hu, hvalue⟩ := value_nat (n := 2 * cap - 1) (by omega)
  rw [Nat.cast_sub (by omega)] at hvalue
  push_cast at hvalue
  norm_num at hsmall
  obtain ⟨-, hlow, hhigh, hcount⟩ := hwell.sampleCount?_eq_floor hfinite hu
    (by rw [hvalue]; linarith) (by rw [hvalue]; linarith)
  have hfloor : ⌊value (D.steps + countTolerance)⌋₊ < 2 * cap :=
    (Nat.floor_lt hlow).mpr (by push_cast; linarith)
  rw [sampleCount, hcount, Option.getD_some]
  omega

/-- The grid of a normalized domain keeps to its cap in just the three cases. -/
theorem sampleCount_normalized_le_iff (d : Domain) (family : Family) {maxSamples : ℕ}
    (hmax : maxSamples < 2 ^ 52) :
    (d.normalized family maxSamples).sampleCount ≤ Nat.max maxSamples 2 ↔
      d.KeepsCap family maxSamples := by
  have hwell := d.wellFormed_normalized family maxSamples
  have hstep := d.step_normalized family maxSamples
  have htwo : 2 ≤ Nat.max maxSamples 2 := Nat.le_max_right _ _
  have hcap : Nat.max maxSamples 2 < 2 ^ 52 := Nat.max_lt.mpr ⟨hmax, by norm_num⟩
  have hcapQ : ((Nat.max maxSamples 2 : ℕ) : ℚ) ≤ 4503599627370496 := by exact_mod_cast hcap.le
  obtain ⟨hfinite, hle⟩ := d.steps_normalized_le_two_mul family hmax
  have hhalf : ∀ h, (d.normalized family maxSamples).sampleCount ≤ Nat.max maxSamples 2 :=
    fun h => hwell.sampleCount_le_of_steps_le hfinite htwo hcap.le
      (d.steps_normalized_le family hmax h).2
  constructor
  · exact fun h =>
      .short (hwell.span_lt_of_sampleCount_le hfinite (by linarith) htwo hcap.le h)
  · rintro (hfits | hnormal | hshort)
    · exact hhalf (Or.inl hfits)
    · exact hhalf (Or.inr hnormal)
    · by_cases hcase : ¬ (Nat.max maxSamples 2).toFloat <
          ((d.normalized family maxSamples).max - (d.normalized family maxSamples).min) /
            d.positiveStep family + 1 ∨ 2 ^ (-1022 : ℤ) ≤ value (d.normalized family maxSamples).step
      · exact hhalf hcase
      · obtain ⟨hexceeds, hsmall⟩ := not_or.mp hcase
        exact hwell.sampleCount_le_of_subnormal htwo hcap.le (hstep.2 (not_not.mp hexceeds))
          (not_le.mp hsmall) hshort

end Domain

/-- For caps of up to 52 binary digits, the points of a normalized domain are counted, and they are no
more than the cap just if the requested step needs no widening, the widened step is a normal double,
or the length is that of fewer steps, by more than half the gap between the cap and the double below
it; and they are never more than twice as many. So a formula with this domain has no more samples
than the cap in these cases, and no formula has more than twice as many. -/
theorem normalized_and_read_sampleCount (d : Domain) (family : Family) {maxSamples : ℕ}
    (hmax : maxSamples < 2 ^ 52) :
    (d.normalized family maxSamples).sampleCount? =
      some (d.normalized family maxSamples).sampleCount ∧
    ((d.normalized family maxSamples).sampleCount ≤ max maxSamples 2 ↔
      d.KeepsCap family maxSamples) ∧
    (d.normalized family maxSamples).sampleCount ≤ 2 * max maxSamples 2 ∧
    ∀ (rules : ReadingRules) (formula : String) (p : Plot), rules.maxSamples = maxSamples →
      rules.read formula = .ok p →
        (∃ e : Domain, p.domain = e.normalized p.family maxSamples) ∧
        (p.domain = d.normalized p.family maxSamples → d.KeepsCap p.family maxSamples →
          p.series.samples.length ≤ max maxSamples 2) ∧
        p.series.samples.length ≤ 2 * max maxSamples 2 := by
  refine ⟨?_, d.sampleCount_normalized_le_iff family hmax,
    d.sampleCount_normalized_le_two_mul family hmax, ?_⟩
  · obtain ⟨n, hn⟩ := Option.isSome_iff_exists.mp
      (d.isSome_sampleCount?_normalized family (hmax.trans (by norm_num)))
    rw [Domain.sampleCount, hn, Option.getD_some]
  rintro rules formula p rfl hread
  have hsamples := p.length_samples_le
  obtain ⟨e, he⟩ := ReadingRules.exists_domain_eq hread
  refine ⟨⟨e, he⟩, fun hd hkeeps => ?_, ?_⟩
  · rw [hd] at hsamples
    exact hsamples.trans ((d.sampleCount_normalized_le_iff p.family hmax).mpr hkeeps)
  · rw [he] at hsamples
    exact hsamples.trans (e.sampleCount_normalized_le_two_mul p.family hmax)

/-- Half steps from zero to nine are widened to steps of three under a cap of four. -/
theorem normalized_and_read_sampleCount_widened :
    Domain.KeepsCap ⟨0, 9, 0.5⟩ .linear 4 ∧
      (Domain.normalized ⟨0, 9, 0.5⟩ .linear 4).sampleCount ≤ max 4 2 ∧
      ∃ p, ReadingRules.read ⟨[], none, 4, none⟩ "linear:2,1,0,9,0.5" = .ok p ∧
        p.domain = Domain.normalized ⟨0, 9, 0.5⟩ p.family 4 ∧
        p.series.samples.length ≤ max 4 2 := by
  have hkeeps : Domain.KeepsCap ⟨0, 9, 0.5⟩ .linear 4 := by
    have hstep : (Domain.normalized ⟨0, 9, 0.5⟩ .linear 4).step = (3 : ℕ).toFloat := by
      decide +kernel
    refine .normal ?_
    rw [hstep, (value_nat (by norm_num)).2]
    exact (zpow_le_one_of_nonpos₀ (by norm_num) (by norm_num)).trans (by norm_num)
  obtain ⟨-, hcount, -, hformula⟩ :=
    normalized_and_read_sampleCount ⟨0, 9, 0.5⟩ .linear (show 4 < 2 ^ 52 by norm_num)
  have hread : (ReadingRules.read ⟨[], none, 4, none⟩ "linear:2,1,0,9,0.5").toOption.map
      (fun p => (p.family, p.domain)) =
        some (.linear, Domain.normalized ⟨0, 9, 0.5⟩ .linear 4) := by
    decide +kernel
  refine ⟨hkeeps, hcount.mpr hkeeps, ?_⟩
  cases hp : ReadingRules.read ⟨[], none, 4, none⟩ "linear:2,1,0,9,0.5" with
  | error e =>
    rw [hp] at hread
    cases hread
  | ok p =>
    rw [hp] at hread
    obtain ⟨hfamily, hdomain⟩ := Prod.mk.inj (Option.some.inj hread)
    rw [← hfamily] at hdomain hkeeps
    have hsamples := (hformula _ _ p rfl hp).2.1 hdomain hkeeps
    exact ⟨p, rfl, hdomain, hsamples⟩

/-- Four least units divided by three intervals round down to one, and five points come of it. -/
theorem not_sampleCount_normalized_le_cap :
    ¬ (Domain.normalized ⟨0, 2e-323, 5e-324⟩ .linear 4).sampleCount ≤ max 4 2 := by
  decide +kernel

end CurvePlot
