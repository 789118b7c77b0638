import CurvePlot.Proofs.Number.RoundingError

/-!
# The doubles below an integer

Below an integer of at most 53 binary digits the doubles leave a gap, and the numbers in its upper
half round up to the integer. So a number has a double below the integer just if it is further away
than half the gap (`Double.RoundsTo.value_lt_natCast_iff`), and this double is then not in the gap
(`Double.value_add_le_natCast`).
-/

namespace CurvePlot

open Magnitude

/-- Half the distance from an integer to the double below it. -/
def Double.halfGapBelow (n : ℕ) : ℚ :=
  2 ^ (((n - 1).log2 : ℤ) - 53)

namespace Double

variable {n k : ℕ}

/-- The integer before one of at most `k` binary digits has no digit beyond them. -/
theorem log2_pred_lt (hk : 0 < k) (hn : n ≤ 2 ^ k) : (n - 1).log2 < k := by
  rcases Nat.eq_zero_or_pos (n - 1) with hzero | hpos
  · rwa [hzero, Nat.log2_zero]
  · have := Nat.one_le_two_pow (n := k)
    exact (Nat.log2_lt hpos.ne').mpr (by omega)

/-- The gap below an integer shrinks with its binary digits. -/
theorem halfGapBelow_le (hk : 0 < k) (hn : n ≤ 2 ^ k) : halfGapBelow n ≤ 2 ^ ((k : ℤ) - 54) := by
  have hlog := log2_pred_lt hk hn
  exact zpow_le_zpow_right₀ (by norm_num) (by omega)

/-- Half the gap is positive and at most a quarter. -/
theorem halfGapBelow_pos_le (hn : n ≤ 2 ^ 52) : 0 < halfGapBelow n ∧ halfGapBelow n ≤ 1 / 4 := by
  refine ⟨zpow_pos (by norm_num) _, (halfGapBelow_le (by norm_num) hn).trans ?_⟩
  norm_num

/-- Four halves of the gap, by the binary digits of the integer before. -/
theorem four_mul_halfGapBelow {j : ℤ} (h : ((n - 1).log2 : ℤ) = j) :
    4 * halfGapBelow n = 2 ^ (j - 51) := by
  rw [halfGapBelow, h, show (4 : ℚ) = 2 ^ (2 : ℤ) by norm_num, ← zpow_add₀ (by norm_num)]
  congr 1
  omega

/-- Below a power of two the gap is half a unit in the last place. -/
theorem halfGapBelow_of_power (hk : k ≤ 51) (h : n * 2 ^ k = 2 ^ 52) :
    4 * halfGapBelow n = 2 ^ (-k : ℤ) := by
  have hn : n = 2 * 2 ^ (51 - k) := by
    refine Nat.eq_of_mul_eq_mul_right (show 0 < 2 ^ k by positivity) ?_
    rw [h, mul_assoc, ← pow_add, Nat.sub_add_cancel hk, ← pow_succ']
  have hlog : (n - 1).log2 = 51 - k := by
    have hone : 1 ≤ 2 ^ (51 - k) := Nat.one_le_two_pow
    have hsucc : 2 ^ (51 - k + 1) = 2 * 2 ^ (51 - k) := pow_succ' _ _
    rw [Nat.log2_eq_iff (by omega)]
    omega
  rw [four_mul_halfGapBelow (j := 51 - k) (by omega)]
  congr 1
  omega

/-- Below any other integer it is a whole one. -/
theorem halfGapBelow_of_lt (hk : k ≤ 51) (hlow : 2 ^ 52 < n * 2 ^ k) (hhigh : n * 2 ^ k < 2 ^ 53) :
    4 * halfGapBelow n = 2 * 2 ^ (-k : ℤ) := by
  have hlog : (n - 1).log2 = 52 - k := by
    have hlower : 2 ^ (52 - k) < n := by
      refine Nat.lt_of_mul_lt_mul_right (a := 2 ^ k) ?_
      rwa [← pow_add, Nat.sub_add_cancel (by omega)]
    have hupper : n < 2 ^ (52 - k + 1) := by
      refine Nat.lt_of_mul_lt_mul_right (a := 2 ^ k) ?_
      rwa [← pow_add, show 52 - k + 1 + k = 53 by omega]
    rw [Nat.log2_eq_iff (by omega)]
    omega
  rw [four_mul_halfGapBelow (j := 52 - k) (by omega), ← zpow_one_add₀ (by norm_num)]
  congr 1
  omega

end Double

namespace Magnitude

/-- An integer is the significand with some binary places cut off, and the significand is even. -/
theorem exists_mul_eq_significand {m : Magnitude} {n : ℕ} (hm : m.Canonical) (hvalue : m.value = n)
    (h2 : 2 ≤ n) (hn : n ≤ 2 ^ 52) :
    ∃ k : ℕ, k ≤ 51 ∧ m.exponent = -k ∧ n * 2 ^ k = m.significand ∧ 2 ^ 52 ≤ m.significand ∧
      m.significand % 2 = 0 := by
  have hs : 2 ^ 52 ≤ m.significand := by
    refine hm.normal.resolve_right fun he => ?_
    have hsignificand : (m.significand : ℚ) < 2 ^ 53 := by exact_mod_cast hm.significand_lt
    have hsmall : m.value < 2 ^ 53 * 2 ^ (-1074 : ℤ) := by
      rw [Magnitude.value, he]
      exact mul_lt_mul_of_pos_right hsignificand (zpow_pos (by norm_num) _)
    have hone : (2 : ℚ) ^ 53 * 2 ^ (-1074 : ℤ) ≤ 1 := by
      rw [← zpow_natCast, ← zpow_add₀ (by norm_num)]
      exact zpow_le_one_of_nonpos₀ (by norm_num) (by norm_num)
    have htwo : (2 : ℚ) ≤ n := by exact_mod_cast h2
    linarith
  obtain ⟨k, hk⟩ : ∃ k : ℕ, m.exponent = -k := by
    rcases le_or_gt m.exponent 0 with he | he
    · exact ⟨(-m.exponent).toNat, by omega⟩
    · obtain ⟨j, hj⟩ := Int.eq_ofNat_of_zero_le he.le
      rw [Magnitude.value, hj, zpow_natCast] at hvalue
      have hproduct : m.significand * 2 ^ j = n := by exact_mod_cast hvalue
      have htwo : 2 ≤ 2 ^ j := Nat.le_self_pow (by omega) 2
      have := Nat.mul_le_mul hs htwo
      omega
  have hproduct : n * 2 ^ k = m.significand := by
    rw [Magnitude.value, hk, zpow_neg, zpow_natCast, ← div_eq_mul_inv,
      div_eq_iff (by positivity)] at hvalue
    exact_mod_cast hvalue.symm
  refine ⟨k, ?_, hk, hproduct, hs, ?_⟩
  · by_contra hlarge
    have hpower : 2 ^ 52 ≤ 2 ^ k := Nat.pow_le_pow_right (by norm_num) (by omega)
    have := Nat.mul_le_mul h2 hpower
    have := hm.significand_lt
    omega
  · rw [← hproduct]
    cases k with
    | zero => omega
    | succ k => rw [pow_succ, ← mul_assoc, Nat.mul_mod_left]

/-- The lower end of the rounding interval of an integer is half the gap below it. -/
theorem lowEnd_natCast {m : Magnitude} {n : ℕ} (hm : m.Canonical) (hvalue : m.value = n)
    (h2 : 2 ≤ n) (hn : n ≤ 2 ^ 52) :
    m.lowEnd * (2 : ℚ) ^ m.exponent = 4 * (n - Double.halfGapBelow n) := by
  obtain ⟨k, hk51, hk, hproduct, hs, -⟩ := exists_mul_eq_significand hm hvalue h2 hn
  have hscale : (4 : ℚ) * m.significand * 2 ^ m.exponent = 4 * n := by
    rw [mul_assoc, ← hvalue, Magnitude.value]
  by_cases hnarrow : m.narrowBelow = true
  · have hpower := (hm.narrowBelow_iff.mp hnarrow).1
    have hlow : (m.lowEnd : ℚ) = 4 * m.significand - 1 := by
      rw [lowEnd, if_pos hnarrow, Nat.cast_sub (by omega)]
      push_cast
      ring
    rw [hlow, sub_mul, hscale, one_mul, mul_sub,
      Double.halfGapBelow_of_power hk51 (hproduct.trans hpower), hk]
  · have hne : m.significand ≠ 2 ^ 52 := fun he =>
      hnarrow (hm.narrowBelow_iff.mpr ⟨he, by omega⟩)
    have hlow : (m.lowEnd : ℚ) = 4 * m.significand - 2 := by
      rw [lowEnd, if_neg hnarrow, Nat.cast_sub (by omega)]
      push_cast
      ring
    rw [hlow, sub_mul, hscale, mul_sub, hk, Double.halfGapBelow_of_lt hk51
      (by rw [hproduct]; omega) (hproduct ▸ hm.significand_lt)]

/-- A number that is not above an integer rounds to it just if it is in the upper half of the gap. -/
theorem rounds_natCast_iff {m : Magnitude} {v : ℚ} {n : ℕ} (hm : m.Canonical)
    (hvalue : m.value = n) (h2 : 2 ≤ n) (hn : n ≤ 2 ^ 52) (hv : v ≤ n) :
    m.Rounds v ↔ n - Double.halfGapBelow n ≤ v := by
  obtain ⟨-, -, -, -, heven⟩ := exists_mul_eq_significand hm hvalue h2 hn
  have hlow := lowEnd_natCast hm hvalue h2 hn
  have hhigh : 4 * v ≤ m.highEnd * (2 : ℚ) ^ m.exponent := by
    have hunit : (0 : ℚ) < 2 ^ m.exponent := zpow_pos (by norm_num) _
    have hend : (m.highEnd : ℚ) = 4 * m.significand + 2 := by
      rw [highEnd]
      push_cast
      rfl
    rw [hend, add_mul, mul_assoc]
    change _ ≤ 4 * m.value + _
    rw [hvalue]
    linarith
  unfold Rounds
  rw [hlow]
  constructor
  · rintro ⟨hle, -, -⟩
    linarith
  · exact fun hle => ⟨by linarith, hhigh, fun hodd => by omega⟩

end Magnitude

namespace Double

variable {v : ℚ} {x : Float} {n : ℕ}

/-- A number has a double below an integer just if it is below the upper half of the gap. -/
theorem RoundsTo.value_lt_natCast_iff (hv : RoundsTo v x) (hx : x.isFinite = true) (h : 0 ≤ v)
    (h2 : 2 ≤ n) (hn : n ≤ 2 ^ 52) : value x < n ↔ v < n - halfGapBelow n := by
  obtain ⟨d, hd, hvalue⟩ := exists_value_eq (z := n) (by omega)
  rw [Int.cast_natCast] at hvalue
  have hself := roundsTo_value hd
  constructor
  · refine fun hlt => not_le.mp fun hge => absurd hlt (not_lt.mpr ?_)
    rcases le_total (n : ℚ) v with hle | hle
    · exact hvalue ▸ hself.value_le hv (hvalue ▸ hle) hd hx
    · have hmagnitude : (ofFloat d).value = n := by
        rw [← abs_value, hvalue, Nat.abs_cast]
      have hrounds : (ofFloat d).Rounds |v| := by
        rw [abs_of_nonneg h]
        exact (rounds_natCast_iff (canonical_ofFloat d) hmagnitude h2 hn hle).mpr hge
      have hto : RoundsTo v d := by
        refine ⟨hself.isNaN_eq, iff_of_true hd ?_, fun _ => hrounds, fun hneg => absurd h hneg.not_ge,
          fun _ => hself.positive ?_⟩
        · refine lt_of_le_of_lt ?_ (hself.isFinite_iff.mp hd)
          rwa [hvalue, Nat.abs_cast, abs_of_nonneg h]
        · rw [hvalue]
          exact_mod_cast (by omega : 0 < n)
      exact hvalue ▸ hto.value_le hv le_rfl hd hx
  · intro hlt
    have hgap := halfGapBelow_pos_le hn
    have hle : value x ≤ n := hvalue ▸ hv.value_le hself (by linarith) hx hd
    refine hle.lt_of_ne fun heq => ?_
    have hrounds := hv.rounds hx
    rw [abs_of_nonneg h] at hrounds
    rw [hv.value_of_nonneg hx h] at heq
    linarith [(rounds_natCast_iff (canonical_ofFloat x) heq h2 hn (by linarith)).mp hrounds]

/-- A double below an integer is not in the gap. -/
theorem value_add_le_natCast (h : 0 ≤ value x) (h2 : 2 ≤ n) (hn : n ≤ 2 ^ 52) (hlt : value x < n) :
    value x + 2 * halfGapBelow n ≤ n := by
  have hgap := halfGapBelow_pos_le hn
  have hlog : 2 ^ (n - 1).log2 ≤ n - 1 := Nat.log2_self_le (by omega)
  have hlogQ : (2 : ℚ) ^ (n - 1).log2 ≤ n - 1 := by
    have hcast : ((n - 1 : ℕ) : ℚ) = n - 1 := by rw [Nat.cast_sub (by omega), Nat.cast_one]
    rw [← hcast]
    exact_mod_cast hlog
  rcases lt_or_ge (value x) (2 ^ (n - 1).log2) with hless | hge
  · linarith
  · -- Both are whole numbers of this unit.
    have hunit : (2 : ℚ) * halfGapBelow n = 2 ^ (((n - 1).log2 : ℤ) - 52) := by
      rw [halfGapBelow, ← zpow_one_add₀ (by norm_num)]
      congr 1
      omega
    have hpositive : (0 : ℚ) < 2 ^ (((n - 1).log2 : ℤ) - 52) := zpow_pos (by norm_num) _
    obtain ⟨z, hz⟩ := exists_mul_zpow_of_le (x := x) (e := ((n - 1).log2 : ℤ) - 52)
      (by rwa [sub_add_cancel, zpow_natCast, abs_of_nonneg h])
    obtain ⟨k, hk⟩ : ∃ k : ℕ, ((n - 1).log2 : ℤ) - 52 = -k := by
      have hsmall := log2_pred_lt (by norm_num) hn
      exact ⟨52 - (n - 1).log2, by omega⟩
    have hcount : (n : ℚ) = (n * 2 ^ k : ℤ) * 2 ^ (((n - 1).log2 : ℤ) - 52) := by
      rw [hk, zpow_neg, zpow_natCast]
      push_cast
      field_simp
    rw [hunit]
    generalize (2 : ℚ) ^ (((n - 1).log2 : ℤ) - 52) = unit at *
    rw [hz, hcount] at hlt ⊢
    have hless : z < n * 2 ^ k := by exact_mod_cast lt_of_mul_lt_mul_right hlt hpositive.le
    have hnext : ((z + 1 : ℤ) : ℚ) ≤ (n * 2 ^ k : ℤ) := by exact_mod_cast hless
    calc (z : ℚ) * unit + unit = (z + 1 : ℤ) * unit := by push_cast; ring
      _ ≤ (n * 2 ^ k : ℤ) * unit := mul_le_mul_of_nonneg_right hnext hpositive.le

end Double

end CurvePlot
