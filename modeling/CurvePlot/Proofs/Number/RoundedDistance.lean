import CurvePlot.Proofs.Number.RoundingError

/-!
# Distances and sums that rounding keeps apart

Two operations with the same exact result give equal doubles (`Double.RoundsTo.beq`). The
difference of two finite doubles is zero only if they are equal, as doubles get denser toward zero
down to the least unit (`Double.pos_of_sub`). A summand that is not lost next to the other one moves
a sum (`Double.RoundsTo.lt_value_add`).
-/

namespace CurvePlot.Double

open Float.Model (UnpackedFloat)
open Magnitude

variable {v w : ℚ} {x y : Float}

namespace RoundsTo

/-- The opposite of a number rounds to the opposite double. -/
theorem opposite (hv : RoundsTo v x) (hx : x.isFinite = true) : RoundsTo (-v) (-x) := by
  obtain ⟨hfinite, hsign, hmagnitude⟩ := sign_neg hx
  refine ⟨(isNaN_isInf_of_isFinite hfinite).1, ?_, fun _ => ?_, fun h => ?_, fun h => ?_⟩
  · rw [abs_neg, ← hv.isFinite_iff, hx, hfinite]
  · rw [hmagnitude, abs_neg]
    exact hv.rounds hx
  · rw [hsign, hv.positive (neg_lt_zero.mp h)]
    rfl
  · rw [hsign, hv.negative (neg_pos.mp h)]
    rfl

/-- If one double of a number is finite, the other one is and has the same value. -/
theorem congr (hx : RoundsTo v x) (hy : RoundsTo v y) (h : x.isFinite = true) :
    y.isFinite = true ∧ value y = value x := by
  have hfinite := hy.isFinite_iff.mpr (hx.isFinite_iff.mp h)
  exact ⟨hfinite, le_antisymm (hy.value_le hx le_rfl hfinite h) (hx.value_le hy le_rfl h hfinite)⟩

/-- The doubles of a number are equal, infinities included. -/
theorem beq (hx : RoundsTo v x) (hy : RoundsTo v y) : (x == y) = true := by
  cases h : x.isFinite with
  | true =>
    obtain ⟨hfinite, hvalue⟩ := hx.congr hy h
    exact (beq_iff h hfinite).mpr hvalue.symm
  | false =>
    have hlarge : ¬ |v| < overflow := fun hlt => by
      rw [hx.isFinite_iff.mpr hlt] at h
      cases h
    have hother : y.isFinite = false := Bool.eq_false_iff.mpr fun hy' =>
      hlarge (hy.isFinite_iff.mp hy')
    -- The number is not zero, so that both infinities have its sign.
    have hsign : sign x = sign y := by
      have hpos : (0 : ℚ) < overflow := by unfold overflow; positivity
      rcases lt_trichotomy v 0 with hneg | rfl | hpos'
      · rw [hx.negative hneg, hy.negative hneg]
      · exact absurd (by simpa using hpos) hlarge
      · rw [hx.positive hpos', hy.positive hpos']
    change UnpackedFloat.beq x.toModel.unpack y.toModel.unpack = true
    rw [unpack_of_infinite hx.isNaN_eq h, unpack_of_infinite hy.isNaN_eq hother, hsign]
    cases sign y <;> rfl

/-- A sum of a number that is not negative and one that is neither below one nor lost next to it has
a double above the first. -/
theorem lt_value_add {p : ℚ} (hx : RoundsTo (v + p) x) (hfinite : x.isFinite = true) (hv : 0 ≤ v)
    (hp : 1 ≤ p) (hsize : v ≤ 32 * p) : v < value x := by
  have hone : 1 ≤ value x := by
    have := (roundsTo_value value_one.1).value_le hx (by rw [value_one.2]; linarith) value_one.1
      hfinite
    rwa [value_one.2] at this
  have hnormal : (2 : ℚ) ^ (-1022 : ℤ) ≤ 1 := zpow_le_one_of_nonpos₀ (by norm_num) (by norm_num)
  have hclose := hx.le_of_normal hfinite (by linarith) (hnormal.trans hone)
  by_contra hle
  have hlost : v + p ≤ v * (1 + 1 / 2 ^ 53) :=
    hclose.trans (mul_le_mul_of_nonneg_right (not_lt.mp hle) (by positivity))
  linarith

/-- A number is within one part in `2 ^ 52` of it, and a least unit, of its double. -/
theorem abs_sub_value_le (hv : RoundsTo v x) (hx : x.isFinite = true) :
    |v - value x| ≤ |v| / 2 ^ 52 + 2 ^ (-1074 : ℤ) := by
  have hm := canonical_ofFloat x
  have hpos : (0 : ℚ) < 2 ^ (ofFloat x).exponent := zpow_pos (by norm_num) _
  have hleast : (0 : ℚ) < 2 ^ (-1074 : ℤ) := zpow_pos (by norm_num) _
  have hdistance := abs_sub_value_le_of_rounds (hv.rounds hx)
  have hunit : (2 : ℚ) ^ (ofFloat x).exponent ≤ (ofFloat x).value / 2 ^ 52 + 2 ^ (-1074 : ℤ) := by
    rcases hm.normal with hs | he
    · exact (unit_le_of_normal hs).trans (le_add_of_nonneg_right hleast.le)
    · rw [he]
      exact le_add_of_nonneg_left (div_nonneg (value_nonneg _) (by positivity))
  have hsame : |v - value x| = |(|v| - (ofFloat x).value)| := by
    rcases le_total 0 v with h | h
    · rw [hv.value_of_nonneg hx h, abs_of_nonneg h]
    · rw [hv.value_of_nonpos hx h, abs_of_nonpos h, ← abs_neg]
      ring_nf
  rw [hsame]
  have hnear := (abs_le.mp hdistance).1
  linarith

end RoundsTo

/-- No finite double is above the infinity. -/
theorem IsInfinity.le_of_isFinite (h : IsInfinity x) (hy : y.isFinite = true) : y ≤ x := by
  change decide (((y.toModel.unpack.compare x.toModel.unpack).any Ordering.isLE) = true) = true
  rw [h.unpack_eq, unpack_of_isFinite hy, unpacked]
  split <;> cases sign y <;> rfl

/-- A finite difference of a greater and a lesser double is positive. -/
theorem pos_of_sub (hx : x.isFinite = true) (hy : y.isFinite = true) (h : value y < value x)
    (hsub : (x - y).isFinite = true) : 0 < value (x - y) := by
  have hunit : (0 : ℚ) < 2 ^ (-1074 : ℤ) := zpow_pos (by norm_num) _
  -- Both are whole numbers of least units, and so is their distance, which is at least one unit.
  obtain ⟨a, ha⟩ := exists_units x
  obtain ⟨b, hb⟩ := exists_units y
  have hlt : b < a := by
    rw [ha, hb] at h
    exact_mod_cast lt_of_mul_lt_mul_right h hunit.le
  have hdistance : 2 ^ (-1074 : ℤ) ≤ value x - value y := by
    have hle : (1 : ℚ) ≤ a - b := by
      have : b + 1 ≤ a := hlt
      have : (b + 1 : ℚ) ≤ a := by exact_mod_cast this
      linarith
    rw [ha, hb, ← sub_mul]
    exact le_mul_of_one_le_left hunit.le hle
  obtain ⟨d, hd, hvalue⟩ := exists_value_eq_mul (s := 1) (by norm_num) (e := -1074) le_rfl
    (by norm_num)
  rw [Nat.cast_one, one_mul] at hvalue
  have hle := (roundsTo_value hd).value_le (roundsTo_sub hx hy) (by rwa [hvalue]) hd hsub
  rw [hvalue] at hle
  exact hunit.trans_le hle

end CurvePlot.Double
