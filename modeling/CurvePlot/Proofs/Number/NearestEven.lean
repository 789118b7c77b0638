import CurvePlot.Proofs.Number.DoubleValue

/-!
# Rounding to the nearest double

Sums, products and quotients of doubles are first known exactly, as a mantissa with two further bits
(`Rounding.Extends`), and then shifted to 53 binary digits, or to the least exponent. The digits that remain
are the nearest ones, of two equally near ones the even ones, so that the exact number rounds to the
magnitude that they make (`Rounding.exists_roundWithAccuracy`).
-/

namespace CurvePlot

open Float.Model (UnpackedFloat Format totalExponent)
open Float.Model.UnpackedFloat

namespace Rounding

/-- The mantissa with the half that the round bit stands for. -/
def roundBase (em : ExtendedMantissa) : ℚ :=
  em.mantissa + if em.roundBit then 1 / 2 else 0

/-- The number `q` is the mantissa, a half if the round bit is set, and a rest below a half, which
the sticky bit shows to be there. -/
structure Extends (em : ExtendedMantissa) (q : ℚ) : Prop where
  /-- There may be a rest. -/
  le : roundBase em ≤ q
  /-- The rest is below a half. -/
  lt : q < roundBase em + 1 / 2
  /-- The sticky bit shows the rest. -/
  sticky : em.stickyBit = false ↔ q = roundBase em

namespace Extends

variable {em : ExtendedMantissa} {q : ℚ}

/-- The number is at least the mantissa and less than the next one. -/
theorem mantissa_le (h : Extends em q) : (em.mantissa : ℚ) ≤ q ∧ q < em.mantissa + 1 := by
  have hle := h.le
  have hlt := h.lt
  unfold roundBase at hle hlt
  cases hr : em.roundBit <;> simp only [hr, Bool.false_eq_true, if_true, if_false] at hle hlt <;>
    constructor <;> linarith

/-- The number is the mantissa just if both bits are clear. -/
theorem eq_mantissa_iff (h : Extends em q) :
    (em.roundBit || em.stickyBit) = false ↔ q = em.mantissa := by
  obtain ⟨m, r, s⟩ := em
  obtain ⟨hle, -, hsticky⟩ := h
  cases r
  · simpa [roundBase] using hsticky
  · simp only [roundBase, if_true] at hle
    simp only [Bool.true_or, reduceCtorEq, false_iff]
    linarith

/-- A shift halves the number. -/
theorem shiftRightOne (h : Extends em q) : Extends em.shiftRightOne (q / 2) := by
  have hbase : roundBase em.shiftRightOne = em.mantissa / 2 := by
    have hdiv : (em.mantissa : ℚ) = 2 * (em.mantissa / 2 : ℕ) + (em.mantissa % 2 : ℕ) := by
      exact_mod_cast (Nat.div_add_mod em.mantissa 2).symm
    rcases Nat.mod_two_eq_zero_or_one em.mantissa with hm | hm <;> rw [hm] at hdiv <;>
      simp [roundBase, ExtendedMantissa.shiftRightOne, hm] <;> linarith
  have hbounds := h.mantissa_le
  constructor
  · rw [hbase]
    linarith
  · rw [hbase]
    linarith
  · rw [hbase, ExtendedMantissa.shiftRightOne, h.eq_mantissa_iff]
    constructor <;> intro heq <;> linarith

/-- Shifts divide the number by a power of two. -/
theorem shiftRight (h : Extends em q) (k : ℕ) : Extends (em >>> k) (q / 2 ^ k) := by
  induction k with
  | zero => simpa [HShiftRight.hShiftRight, Nat.repeat] using h
  | succ k ih =>
    have hstep : em >>> (k + 1) = (em >>> k).shiftRightOne := rfl
    rw [hstep, pow_succ, ← div_div]
    exact ih.shiftRightOne

/-- Rounding yields a nearest integer, of two equally near ones the even one. -/
theorem roundedMantissa (h : Extends em q) :
    2 * (em.roundedMantissa : ℚ) - 1 ≤ 2 * q ∧ 2 * q ≤ 2 * em.roundedMantissa + 1 ∧
      (em.roundedMantissa % 2 = 1 →
        2 * (em.roundedMantissa : ℚ) - 1 < 2 * q ∧ 2 * q < 2 * em.roundedMantissa + 1) := by
  obtain ⟨m, r, s⟩ := em
  obtain ⟨hle, hlt, hsticky⟩ := h
  cases r <;> cases s <;>
    simp only [roundBase, Bool.false_eq_true, if_false, if_true, add_zero, true_iff, reduceCtorEq,
      false_iff, ExtendedMantissa.roundedMantissa, ExtendedMantissa.accuracy,
      Accuracy.roundToNearestEven] at *
  · exact ⟨by linarith, by linarith, fun _ => ⟨by linarith, by linarith⟩⟩
  · exact ⟨by linarith, by linarith, fun _ => ⟨by linarith, by linarith⟩⟩
  · rcases Nat.mod_two_eq_zero_or_one m with hm | hm
    · rw [hm, Nat.add_zero]
      exact ⟨by linarith, by linarith, fun hodd => by omega⟩
    · rw [hm]
      push_cast
      exact ⟨by linarith, by linarith, fun hodd => by omega⟩
  · have hlt' := lt_of_le_of_ne hle (Ne.symm hsticky)
    push_cast
    exact ⟨by linarith, by linarith, fun _ => ⟨by linarith, by linarith⟩⟩

/-- The rounded mantissa is the mantissa or the next one. -/
theorem mantissa_le_roundedMantissa (em : ExtendedMantissa) :
    em.mantissa ≤ em.roundedMantissa ∧ em.roundedMantissa ≤ em.mantissa + 1 := by
  obtain ⟨m, r, s⟩ := em
  cases r <;> cases s <;>
    simp only [ExtendedMantissa.roundedMantissa, ExtendedMantissa.accuracy,
      Accuracy.roundToNearestEven] <;> omega

end Extends

/-- Shifts divide the mantissa by a power of two. -/
theorem mantissa_shiftRight (em : ExtendedMantissa) (k : ℕ) :
    (em >>> k).mantissa = em.mantissa / 2 ^ k := by
  induction k with
  | zero => simp [HShiftRight.hShiftRight, Nat.repeat]
  | succ k ih =>
    have hstep : (em >>> (k + 1)).mantissa = (em >>> k).mantissa / 2 := rfl
    rw [hstep, ih, Nat.div_div_eq_div_mul, pow_succ]

/-- An exact mantissa stands for itself. -/
theorem extends_exact (m : ℕ) : Extends (.ofMantissaAndAccuracy m .exact) m := by
  constructor <;> simp [roundBase, ExtendedMantissa.ofMantissaAndAccuracy]

/-- The exponent that a number with its leading digit at `place` is rounded at. -/
theorem targetExponent_eq (place : ℤ) :
    Format.binary64.targetExponent place = max (place - 53) (-1074) := rfl

/-- Digits below the 53 leading ones are dropped. -/
theorem div_lt_of_log2_le {m k : ℕ} (h : m.log2 ≤ 52 + k) : m / 2 ^ k < 2 ^ 53 := by
  rw [Nat.div_lt_iff_lt_mul (by positivity), ← pow_add]
  exact Nat.lt_log2_self.trans_le (Nat.pow_le_pow_right (by norm_num) (by omega))

/-- Of a number with more digits, 53 are kept. -/
theorem le_div_of_log2_eq {m k : ℕ} (h : m.log2 = 52 + k) : 2 ^ 52 ≤ m / 2 ^ k := by
  have hm : m ≠ 0 := by
    rintro rfl
    simp at h
    omega
  rw [Nat.le_div_iff_mul_le (by positivity), ← pow_add, ← h]
  exact Nat.log2_self_le hm

end Rounding

namespace Magnitude

/-- The magnitude with a significand and an exponent. -/
def ofParts (significand : ℕ) (exponent : ℤ) : Magnitude :=
  ⟨significand, exponent, significand == 2 ^ 52 && decide (-1074 < exponent)⟩

/-- The parts of a double make its magnitude. -/
theorem canonical_ofParts {significand : ℕ} {exponent : ℤ} (hs : significand < 2 ^ 53)
    (he : -1074 ≤ exponent) (hnormal : 2 ^ 52 ≤ significand ∨ exponent = -1074) :
    (ofParts significand exponent).Canonical :=
  ⟨hs, he, hnormal, by simp [ofParts]⟩

/-- Rounding is decided in units of the last place. -/
theorem rounds_mul_unit {n : Magnitude} {q : ℚ} (hlow : n.lowEnd ≤ 4 * q)
    (hhigh : 4 * q ≤ n.highEnd)
    (hodd : n.significand % 2 = 1 → n.lowEnd < 4 * q ∧ 4 * q < n.highEnd) :
    n.Rounds (q * 2 ^ n.exponent) := by
  have hunit : (0 : ℚ) < 2 ^ n.exponent := zpow_pos (by norm_num) _
  rw [Rounds, ← mul_assoc]
  exact ⟨mul_le_mul_of_nonneg_right hlow hunit.le, mul_le_mul_of_nonneg_right hhigh hunit.le,
    fun h => ⟨mul_lt_mul_of_pos_right (hodd h).1 hunit, mul_lt_mul_of_pos_right (hodd h).2 hunit⟩⟩

/-- A number within half a unit of a significand rounds to it, and below a power of two a number
within a quarter. -/
theorem rounds_ofParts {N : ℕ} {t : ℤ} {q : ℚ} (hlow : 2 * (N : ℚ) - 1 ≤ 2 * q)
    (hhigh : 2 * q ≤ 2 * N + 1) (hodd : N % 2 = 1 → 2 * (N : ℚ) - 1 < 2 * q ∧ 2 * q < 2 * N + 1)
    (hq : 0 ≤ q) (hpower : N = 2 ^ 52 → -1074 < t → 4 * (N : ℚ) - 1 ≤ 4 * q) :
    (ofParts N t).Rounds (q * 2 ^ t) := by
  have hend : ((ofParts N t).highEnd : ℚ) = 4 * N + 2 := by
    unfold highEnd
    push_cast
    rfl
  by_cases hnarrow : N = 2 ^ 52 ∧ -1074 < t
  · have hlowEnd : ((ofParts N t).lowEnd : ℚ) = 4 * N - 1 := by
      rw [lowEnd, if_pos (by simp [ofParts, hnarrow]), Nat.cast_sub (by simp only [ofParts]; omega)]
      push_cast
      rfl
    have hle := hpower hnarrow.1 hnarrow.2
    exact rounds_mul_unit (n := ofParts N t) (by linarith) (by linarith)
      fun h => by simp only [ofParts] at h; omega
  · have hwide : ¬ (ofParts N t).narrowBelow = true := by simpa [ofParts] using hnarrow
    rcases Nat.eq_zero_or_pos N with hN | hN
    · have hlowEnd : ((ofParts N t).lowEnd : ℚ) = 0 := by
        rw [lowEnd, if_neg hwide]
        simp [ofParts, hN]
      exact rounds_mul_unit (n := ofParts N t) (by linarith) (by linarith)
        fun h => by simp only [ofParts] at h; omega
    · have hlowEnd : ((ofParts N t).lowEnd : ℚ) = 4 * N - 2 := by
        rw [lowEnd, if_neg hwide, Nat.cast_sub (by simp only [ofParts]; omega)]
        push_cast
        rfl
      exact rounds_mul_unit (n := ofParts N t) (by linarith) (by linarith)
        fun h => ⟨by linarith [(hodd h).1], by linarith [(hodd h).2]⟩

end Magnitude

namespace Rounding

/-- A significand that fits is left alone by the second shift. -/
theorem shiftToTargetExponent_of_lt {N : ℕ} {t : ℤ} (hN : N < 2 ^ 53) (ht : -1074 ≤ t) :
    shiftToTargetExponent .binary64 N t .exact = (⟨N, false, false⟩, t) := by
  have hlog : N.log2 ≤ 52 := by
    rcases Nat.eq_zero_or_pos N with h | h
    · simp [h]
    · exact Nat.lt_succ_iff.mp ((Nat.log2_lt (by omega)).mpr hN)
  have hshift : (Format.binary64.targetExponent (totalExponent N t) - t).toNat = 0 := by
    rw [targetExponent_eq, totalExponent]
    omega
  simp only [shiftToTargetExponent, shiftToExponent, hshift]
  simp [ExtendedMantissa.ofMantissaAndAccuracy, HShiftRight.hShiftRight, Nat.repeat]

/-- A significand that was rounded up to the next power of two loses its last digit, a zero. -/
theorem shiftToTargetExponent_power {t : ℤ} (ht : -1074 ≤ t) :
    shiftToTargetExponent .binary64 (2 ^ 53) t .exact = (⟨2 ^ 52, false, false⟩, t + 1) := by
  have hshift : (Format.binary64.targetExponent (totalExponent (2 ^ 53) t) - t).toNat = 1 := by
    rw [targetExponent_eq, totalExponent, Nat.log2_two_pow]
    omega
  simp only [shiftToTargetExponent, shiftToExponent, hshift]
  simp [ExtendedMantissa.ofMantissaAndAccuracy, HShiftRight.hShiftRight, Nat.repeat,
    ExtendedMantissa.shiftRightOne]

/-- The first shift drops the digits below the least exponent that the format has for the number. -/
theorem shiftToTargetExponent_eq_shiftRight {m k : ℕ} {e t : ℤ} (accuracy : Accuracy)
    (ht : t = max (m.log2 + 1 + e - 53) (-1074 : ℤ)) (hk : t = e + k) :
    shiftToTargetExponent .binary64 m e accuracy =
      (ExtendedMantissa.ofMantissaAndAccuracy m accuracy >>> k, t) := by
  have hshift : (Format.binary64.targetExponent (totalExponent m e) - e).toNat = k := by
    rw [targetExponent_eq, totalExponent]
    omega
  simp only [shiftToTargetExponent, shiftToExponent, hshift, hk]

/-- It divides the significand, whatever has been dropped before. -/
theorem mantissa_ofMantissaAndAccuracy_shiftRight (m k : ℕ) (accuracy : Accuracy) :
    (ExtendedMantissa.ofMantissaAndAccuracy m accuracy >>> k).mantissa = m / 2 ^ k := by
  rw [mantissa_shiftRight]
  cases accuracy with
  | exact => rfl
  | inexact o => cases o <;> rfl

/-- The sum, product or quotient handed to the rounding step is rounded correctly. -/
theorem exists_roundWithAccuracy (s : Sign) {m : ℕ} {e : ℤ} {accuracy : Accuracy} {q : ℚ}
    (hq : Extends (.ofMantissaAndAccuracy m accuracy) q) (hlarge : 52 ≤ m.log2 ∨ e ≤ -1074) :
    ∃ n : Magnitude, n.Canonical ∧
      roundWithAccuracy .binary64 s m e accuracy = Magnitude.unpacked s n ∧
        n.Rounds (q * 2 ^ e) := by
  -- The exponent after the first shift, and the number of digits it drops.
  obtain ⟨t, ht⟩ : ∃ t, t = max (m.log2 + 1 + e - 53) (-1074 : ℤ) := ⟨_, rfl⟩
  obtain ⟨k, hk⟩ : ∃ k : ℕ, t = e + k := ⟨(t - e).toNat, by omega⟩
  have hfirst := shiftToTargetExponent_eq_shiftRight accuracy ht hk
  have hext := hq.shiftRight k
  have hmantissa := mantissa_ofMantissaAndAccuracy_shiftRight m k accuracy
  have hvalue : q * 2 ^ e = q / 2 ^ k * 2 ^ t := by
    rw [hk, zpow_add₀ (by norm_num), zpow_natCast]
    field_simp
  rw [roundWithAccuracy, hfirst, hvalue]
  generalize ExtendedMantissa.ofMantissaAndAccuracy m accuracy >>> k = em at *
  generalize q / 2 ^ k = q' at *
  have hlt : em.mantissa < 2 ^ 53 := by
    rw [hmantissa]
    exact div_lt_of_log2_le (by omega)
  have hnormal : 2 ^ 52 ≤ em.mantissa ∨ t = -1074 := by
    rcases eq_or_ne t (-1074) with h | h
    · exact Or.inr h
    · rw [hmantissa]
      exact Or.inl (le_div_of_log2_eq (by omega))
  have hnonneg : (0 : ℚ) ≤ em.mantissa := Nat.cast_nonneg _
  have hround := Extends.mantissa_le_roundedMantissa em
  obtain ⟨hlow, hhigh, hodd⟩ := hext.roundedMantissa
  have hbounds := hext.mantissa_le
  dsimp only
  generalize em.roundedMantissa = N at *
  rcases Nat.lt_or_ge N (2 ^ 53) with hN | hN
  · refine ⟨.ofParts N t, Magnitude.canonical_ofParts hN (by omega) (by omega), ?_, ?_⟩
    · rw [shiftToTargetExponent_of_lt hN (by omega)]
      rfl
    · refine Magnitude.rounds_ofParts hlow hhigh hodd (by linarith) fun hpower hleast => ?_
      have hexact : N = em.mantissa := by omega
      rw [hexact]
      linarith
  · obtain rfl : N = 2 ^ 53 := by omega
    refine ⟨.ofParts (2 ^ 52) (t + 1), Magnitude.canonical_ofParts (by norm_num) (by omega) (by omega),
      ?_, ?_⟩
    · rw [shiftToTargetExponent_power (by omega)]
      rfl
    · have hunit : q' * 2 ^ t = q' / 2 * 2 ^ (t + 1) := by
        rw [zpow_add_one₀ (by norm_num)]
        ring
      rw [hunit]
      norm_num at hlow hhigh
      refine Magnitude.rounds_ofParts ?_ ?_ (by omega) (by linarith) fun _ _ => ?_ <;> norm_num <;>
        linarith

end Rounding

end CurvePlot
