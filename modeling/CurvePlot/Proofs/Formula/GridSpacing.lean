import CurvePlot.Formula.Grid
import CurvePlot.Proofs.Number.RoundedDistance
import CurvePlot.Proofs.Number.WholeNumbers

/-!
# How far apart grid points are

A grid point is a product and a sum, both rounded, and so is the distance of two points. On a grid
that is neither too fine for its bounds nor too long (`Domain.Steady`) all this moves a point by at
most a sixty-fourth of a step. Two neighbours are then at most nine eighths of a step apart,
other points at least fifteen eighths, and so one and a half times the distance of any two
neighbours is less than the distance of any other two points (`Domain.Steady.lt_sub`).
-/

namespace CurvePlot

open Double

/-- One and a half is a double. -/
theorem Double.value_three_halves : (1.5 : Float).isFinite = true ∧ value 1.5 = 3 / 2 := by
  have hmagnitude : Magnitude.ofFloat 1.5 = ⟨3 * 2 ^ 51, -52, false⟩ := rfl
  have hsign : Magnitude.sign 1.5 = .positive := rfl
  refine ⟨rfl, ?_⟩
  rw [value, hmagnitude, hsign, Magnitude.signed]
  norm_num [Magnitude.value]

namespace Domain

/-- A grid whose step is a normal double, with no more than `2 ^ 40` points, the first of them no
more than `2 ^ 40` steps from zero. -/
structure Steady (d : Domain) : Prop where
  /-- The lower bound is finite. -/
  isFinite_min : d.min.isFinite = true
  /-- The step is finite. -/
  isFinite_step : d.step.isFinite = true
  /-- The step is a normal double. -/
  normal : 2 ^ (-1022 : ℤ) ≤ value d.step
  /-- The lower bound is not so far from zero that the step would be lost. -/
  near : |value d.min| ≤ 2 ^ 40 * value d.step
  /-- There are not so many points that their indices would be rounded. -/
  few : ∃ n ≤ 2 ^ 40, d.sampleCount? = some n

namespace Steady

variable {d : Domain} {i j n : ℕ}

/-- The step is positive. -/
theorem step_pos (h : d.Steady) : 0 < value d.step :=
  lt_of_lt_of_le (zpow_pos (by norm_num) _) h.normal

/-- The points are as few as their count. -/
theorem sampleCount_le (h : d.Steady) : d.sampleCount ≤ 2 ^ 40 := by
  obtain ⟨n, hn, hcount⟩ := h.few
  rwa [sampleCount, hcount, Option.getD_some]

/-- A least unit is nothing to the step. -/
theorem unit_le (h : d.Steady) : (2 : ℚ) ^ (-1074 : ℤ) ≤ value d.step / 2 ^ 52 := by
  have hpower : (2 : ℚ) ^ (-1074 : ℤ) * 2 ^ 52 = 2 ^ (-1022 : ℤ) := by
    rw [← zpow_natCast, ← zpow_add₀ (by norm_num)]
    rfl
  rw [le_div_iff₀ (by positivity), hpower]
  exact h.normal

/-- A finite point is at most a sixty-fourth of a step from its exact place. -/
theorem abs_sub_point_le (h : d.Steady) (hi : i < d.sampleCount)
    (hpoint : (d.point i).isFinite = true) :
    |value d.min + i * value d.step - value (d.point i)| ≤ value d.step / 64 := by
  have hcount := h.sampleCount_le
  obtain ⟨hindex, hvalue⟩ := value_nat (n := i) (by omega)
  have hproduct : (i.toFloat * d.step).isFinite = true := (isFinite_of_add hpoint).2
  have hpos := h.step_pos
  have hunit := h.unit_le
  have hbound := h.near
  have hmul := (roundsTo_mul hindex h.isFinite_step).abs_sub_value_le hproduct
  have hadd := (roundsTo_add h.isFinite_min hproduct).abs_sub_value_le hpoint
  have hlength : (i : ℚ) * value d.step ≤ 2 ^ 40 * value d.step :=
    mul_le_mul_of_nonneg_right (by exact_mod_cast (by omega : i ≤ 2 ^ 40)) hpos.le
  have hnonneg : 0 ≤ (i : ℚ) * value d.step := mul_nonneg (Nat.cast_nonneg i) hpos.le
  change |_ - value (d.point i)| ≤ _ at hadd
  rw [hvalue, abs_of_nonneg hnonneg] at hmul
  generalize (i : ℚ) * value d.step = length at *
  generalize (2 : ℚ) ^ (-1074 : ℤ) = unit at *
  rw [abs_le] at hmul hbound
  have hsum : |value d.min + value (i.toFloat * d.step)| ≤ 2 ^ 42 * value d.step := by
    rw [abs_le]
    constructor <;> linarith
  rw [abs_le] at hadd ⊢
  constructor <;> linarith

/-- So the exact distance of two points differs from a whole number of steps by at most a
thirty-second of a step. -/
theorem abs_steps_sub_le (h : d.Steady) (hi : i < d.sampleCount) (hj : j < d.sampleCount)
    (hfinite : (d.point i).isFinite = true) (hfinite' : (d.point j).isFinite = true) :
    |(j - i) * value d.step - (value (d.point j) - value (d.point i))| ≤ value d.step / 32 := by
  have hfirst := abs_le.mp (h.abs_sub_point_le hi hfinite)
  have hsecond := abs_le.mp (h.abs_sub_point_le hj hfinite')
  rw [sub_mul, abs_le]
  constructor <;> linarith

/-- Neighbours are at most nine eighths of a step apart. -/
theorem sub_le (h : d.Steady) (hn : n + 1 < d.sampleCount)
    (hfinite : (d.point (n + 1) - d.point n).isFinite = true) :
    value (d.point (n + 1) - d.point n) ≤ 9 / 8 * value d.step := by
  obtain ⟨hsecond, hfirst⟩ := isFinite_of_sub hfinite
  have hpos := h.step_pos
  have hunit := h.unit_le
  have hexact := abs_le.mp (h.abs_steps_sub_le (by omega) hn hfirst hsecond)
  have hone : ((n + 1 : ℕ) : ℚ) - n = 1 := by
    push_cast
    ring
  rw [hone, one_mul] at hexact
  have hrounded := (roundsTo_sub hsecond hfirst).abs_sub_value_le hfinite
  rw [abs_of_nonneg (by linarith : 0 ≤ value (d.point (n + 1)) - value (d.point n)),
    abs_le] at hrounded
  linarith

/-- Other points are at least fifteen eighths of a step apart. -/
theorem le_sub (h : d.Steady) (hij : i + 1 < j) (hj : j < d.sampleCount)
    (hfinite : (d.point j - d.point i).isFinite = true) :
    15 / 8 * value d.step ≤ value (d.point j - d.point i) := by
  obtain ⟨hsecond, hfirst⟩ := isFinite_of_sub hfinite
  have hpos := h.step_pos
  have hunit := h.unit_le
  have hexact := abs_le.mp (h.abs_steps_sub_le (by omega) hj hfirst hsecond)
  have htwo : 2 * value d.step ≤ ((j : ℚ) - i) * value d.step := by
    refine mul_le_mul_of_nonneg_right ?_ hpos.le
    rw [le_sub_iff_add_le']
    exact_mod_cast hij
  have hrounded := (roundsTo_sub hsecond hfirst).abs_sub_value_le hfinite
  rw [abs_of_nonneg (by linarith : 0 ≤ value (d.point j) - value (d.point i)), abs_le] at hrounded
  linarith

/-- One and a half times the distance of neighbours is less than the distance of other points. -/
theorem lt_sub (h : d.Steady) (hn : n + 1 < d.sampleCount) (hij : i + 1 < j)
    (hj : j < d.sampleCount) (hnear : (d.point (n + 1) - d.point n).isFinite = true)
    (hpos : 0 ≤ value (d.point (n + 1) - d.point n))
    (hfar : (d.point j - d.point i).isFinite = true) :
    1.5 * (d.point (n + 1) - d.point n) < d.point j - d.point i := by
  obtain ⟨hhalves, hvalue⟩ := value_three_halves
  have hstep := h.step_pos
  have hunit := h.unit_le
  have hle := h.sub_le hn hnear
  have hge := h.le_sub hij hj hfar
  have hproduct := roundsTo_mul hhalves hnear
  rw [hvalue] at hproduct
  have hnonneg : 0 ≤ 3 / 2 * value (d.point (n + 1) - d.point n) := by linarith
  have hfinite : (1.5 * (d.point (n + 1) - d.point n)).isFinite = true := by
    refine hproduct.isFinite_of_abs_le (roundsTo_value hfar) ?_ hfar
    rw [abs_of_nonneg hnonneg, abs_of_nonneg (by linarith)]
    linarith
  have hrounded := hproduct.abs_sub_value_le hfinite
  rw [abs_of_nonneg hnonneg, abs_le] at hrounded
  rw [lt_iff hfinite hfar]
  linarith

end Steady

end Domain

end CurvePlot
