import CurvePlot.Proofs.Number.NearestEven

/-!
# Operations on unpacked doubles are correctly rounded

Sum, difference, product and quotient of two unpacked doubles, and every whole number, come out as
the unpacked double that the exact result rounds to (`Rounding.Rounded`). The exponent of such a
double may still be too great for its bits, which is settled where it is packed.
-/

namespace CurvePlot

open Float.Model (UnpackedFloat Format totalExponent)
open Float.Model.UnpackedFloat

namespace Magnitude

/-- The magnitude zero. -/
def zero : Magnitude := ofParts 0 (-1074)

/-- It is that of a double. -/
theorem canonical_zero : zero.Canonical :=
  canonical_ofParts (by norm_num) le_rfl (Or.inr rfl)

/-- Its value is zero. -/
theorem value_zero : zero.value = 0 :=
  value_eq_zero rfl

/-- A magnitude of a double rounds to itself. -/
theorem rounds_self {m : Magnitude} (hm : m.Canonical) : m.Rounds m.value := by
  rcases Nat.eq_zero_or_pos m.significand with h | h
  · have hwide : ¬ m.narrowBelow = true := fun hn => by
      have := (hm.narrowBelow_iff.mp hn).1
      omega
    have hlow : m.lowEnd = 0 := by rw [lowEnd, if_neg hwide, h]
    have hhigh : m.highEnd = 2 := by rw [highEnd, h]
    have hunit : (0 : ℚ) < 2 ^ m.exponent := zpow_pos (by norm_num) _
    rw [Rounds, hlow, hhigh, value_eq_zero h]
    exact ⟨by norm_num, by push_cast; linarith, by omega⟩
  · exact rounds_value h

end Magnitude

namespace Rounding

open Magnitude (signed unpacked)

/-- The unpacked double is the one that the number rounds to. -/
def Rounded (v : ℚ) (u : UnpackedFloat) : Prop :=
  ∃ s n, u = unpacked s n ∧ n.Canonical ∧ n.Rounds |v| ∧ (v < 0 → s = .negative) ∧
    (0 < v → s = .positive)

namespace Rounded

/-- A number with a sign rounds to a magnitude with this sign. -/
theorem of_rounds {s : Sign} {n : Magnitude} {v : ℚ} (hn : n.Canonical) (hr : n.Rounds v)
    (hv : 0 ≤ v) : Rounded (signed s v) (unpacked s n) := by
  cases s with
  | negative =>
    refine ⟨.negative, n, rfl, hn, ?_, fun _ => rfl, fun h => ?_⟩
    · simpa [signed, abs_of_nonneg hv] using hr
    · simp only [signed] at h
      linarith
  | positive =>
    refine ⟨.positive, n, rfl, hn, ?_, fun h => ?_, fun _ => rfl⟩
    · simpa [signed, abs_of_nonneg hv] using hr
    · simp only [signed] at h
      linarith

/-- A double rounds to itself. -/
theorem self (s : Sign) {m : Magnitude} (hm : m.Canonical) :
    Rounded (signed s m.value) (unpacked s m) :=
  of_rounds hm (Magnitude.rounds_self hm) m.value_nonneg

/-- Zero rounds to a zero of either sign. -/
theorem zero (s : Sign) : Rounded 0 (.zero s) :=
  ⟨s, .zero, rfl, Magnitude.canonical_zero,
    by simpa [Magnitude.value_zero] using Magnitude.rounds_self Magnitude.canonical_zero,
    fun h => absurd h (lt_irrefl 0), fun h => absurd h (lt_irrefl 0)⟩

end Rounded

/-- A shift to the left adds digits. -/
theorem log2_shiftLeft {m : ℕ} (hm : m ≠ 0) (k : ℕ) : (m <<< k).log2 = m.log2 + k := by
  have hne : m * 2 ^ k ≠ 0 := by positivity
  rw [Nat.shiftLeft_eq, Nat.log2_eq_iff hne, pow_add, Nat.add_right_comm, pow_add]
  exact ⟨Nat.mul_le_mul_right _ (Nat.log2_self_le hm),
    Nat.mul_lt_mul_of_pos_right Nat.lt_log2_self (by positivity)⟩

/-- A whole number of any size at any exponent is rounded correctly. -/
theorem exists_round (s : Sign) {m : ℕ} (hm : m ≠ 0) (e : ℤ) :
    ∃ n : Magnitude, n.Canonical ∧ UnpackedFloat.round .binary64 s m e = unpacked s n ∧
      n.Rounds (m * 2 ^ e) := by
  obtain ⟨k, hk⟩ : ∃ k : ℕ, k = (e - max (m.log2 + 1 + e - 53) (-1074)).toNat := ⟨_, rfl⟩
  have hlog := log2_shiftLeft hm k
  obtain ⟨n, hn, hround, hr⟩ := exists_roundWithAccuracy s (extends_exact (m <<< k))
    (e := e - k) (by omega)
  refine ⟨n, hn, ?_, ?_⟩
  · rw [← hround, hk]
    rfl
  · have hvalue : ((m <<< k : ℕ) : ℚ) * 2 ^ (e - k) = m * 2 ^ e := by
      rw [Nat.shiftLeft_eq, zpow_sub₀ (by norm_num), zpow_natCast]
      push_cast
      field_simp
    rwa [hvalue] at hr

/-- So is an integer. -/
theorem rounded_normalize (z : ℤ) (e : ℤ) (s : Sign) :
    Rounded (z * 2 ^ e) (UnpackedFloat.normalize .binary64 z e s) := by
  have hunit : (0 : ℚ) < 2 ^ e := zpow_pos (by norm_num) _
  unfold UnpackedFloat.normalize
  rcases lt_trichotomy z 0 with h | h | h
  · rw [compare_lt_iff_lt.mpr h]
    obtain ⟨n, hn, hround, hr⟩ := exists_round .negative (m := (-z).toNat) (by omega) e
    have hz : (z : ℚ) = -((-z).toNat : ℚ) := by
      have : z = -((-z).toNat : ℤ) := by omega
      exact_mod_cast this
    have hv : (z : ℚ) * 2 ^ e = signed .negative ((-z).toNat * 2 ^ e) := by
      rw [hz, signed, neg_mul]
    dsimp only
    rw [hround, hv]
    exact .of_rounds hn hr (by positivity)
  · rw [compare_eq_iff_eq.mpr h, h, Int.cast_zero, zero_mul]
    exact .zero s
  · rw [compare_gt_iff_gt.mpr h]
    obtain ⟨n, hn, hround, hr⟩ := exists_round .positive (m := z.toNat) (by omega) e
    have hz : (z : ℚ) = (z.toNat : ℚ) := by
      have : z = (z.toNat : ℤ) := by omega
      exact_mod_cast this
    dsimp only
    rw [hround, hz]
    exact .of_rounds hn hr (by positivity)

/-- Bringing a significand to a lower exponent keeps the number. -/
theorem decreaseExponent_value (m : ℕ) {e e' : ℤ} (h : e' ≤ e) :
    (((decreaseExponent m e e').1 : ℕ) : ℚ) * 2 ^ e' = m * 2 ^ e := by
  obtain ⟨k, hk⟩ : ∃ k : ℕ, e = e' + k := ⟨(e - e').toNat, by omega⟩
  have hshift : (e - e').toNat = k := by omega
  rw [decreaseExponent, hshift, Nat.shiftLeft_eq, hk, zpow_add₀ (by norm_num), zpow_natCast]
  push_cast
  ring

/-- A sign in front of a whole number is the same in front of a rational one. -/
theorem cast_apply (s : Sign) (m : ℕ) : ((s.apply m : ℤ) : ℚ) = signed s m := by
  cases s <;> simp [Sign.apply, signed]

/-- A sign passes a positive unit. -/
theorem signed_mul (s : Sign) (v w : ℚ) : signed s (v * w) = signed s v * w := by
  cases s <;> simp [signed]

/-- Without a sign there is zero. -/
theorem signed_zero (s : Sign) : signed s 0 = 0 := by
  cases s <;> simp [signed]

/-- The sum of two doubles. -/
theorem rounded_add (s t : Sign) {m n : Magnitude} (hm : m.Canonical) (hn : n.Canonical) :
    Rounded (signed s m.value + signed t n.value)
      (add .binary64 (unpacked s m) (unpacked t n)) := by
  by_cases hzm : m.significand = 0
  · by_cases hzn : n.significand = 0
    · rw [Magnitude.value_eq_zero hzm, Magnitude.value_eq_zero hzn, signed_zero, signed_zero,
        add_zero]
      simp only [unpacked, hzm, hzn, dif_pos, add]
      split
      · exact .zero s
      · exact .zero .positive
    · have h := Rounded.self t hn
      rw [Magnitude.value_eq_zero hzm, signed_zero, zero_add]
      simp only [unpacked, hzm, hzn, dif_pos, dif_neg, not_false_eq_true, add] at h ⊢
      exact h
  · by_cases hzn : n.significand = 0
    · have h := Rounded.self s hm
      rw [Magnitude.value_eq_zero hzn, signed_zero, add_zero]
      simp only [unpacked, hzm, hzn, dif_pos, dif_neg, not_false_eq_true, add] at h ⊢
      exact h
    · have hsum := rounded_normalize
        (s.apply (decreaseExponent m.significand m.exponent (min m.exponent n.exponent)).1 +
          t.apply (decreaseExponent n.significand n.exponent (min m.exponent n.exponent)).1)
        (min m.exponent n.exponent) .positive
      have hvalue : signed s m.value + signed t n.value =
          (s.apply (decreaseExponent m.significand m.exponent (min m.exponent n.exponent)).1 +
          t.apply (decreaseExponent n.significand n.exponent (min m.exponent n.exponent)).1 : ℤ) *
            2 ^ min m.exponent n.exponent := by
        push_cast
        rw [cast_apply, cast_apply, add_mul, ← signed_mul, ← signed_mul,
          decreaseExponent_value _ (min_le_left _ _), decreaseExponent_value _ (min_le_right _ _)]
        rfl
      rw [hvalue]
      simp only [unpacked, hzm, hzn, dif_neg, not_false_eq_true, add]
      exact hsum

/-- A difference is the sum with the opposite. -/
theorem sub_eq_add (s t : Sign) (m n : Magnitude) :
    sub .binary64 (unpacked s m) (unpacked t n) =
      add .binary64 (unpacked s m) (unpacked (-t) n) := by
  have happly : ∀ k : ℕ, (-t).apply k = -t.apply k := by
    intro k
    cases t
    · exact (neg_neg _).symm
    · rfl
  by_cases hzm : m.significand = 0 <;> by_cases hzn : n.significand = 0 <;>
    simp only [unpacked, hzm, hzn, dif_pos, dif_neg, not_false_eq_true, sub, add, happly,
      sub_eq_add_neg]

/-- The difference of two doubles. -/
theorem rounded_sub (s t : Sign) {m n : Magnitude} (hm : m.Canonical) (hn : n.Canonical) :
    Rounded (signed s m.value - signed t n.value)
      (sub .binary64 (unpacked s m) (unpacked t n)) := by
  have h := rounded_add s (-t) hm hn
  rw [sub_eq_add]
  have hneg : signed (-t) n.value = -signed t n.value := by
    cases t
    · exact (neg_neg _).symm
    · rfl
  rwa [hneg, ← sub_eq_add_neg] at h

/-- Signs multiply. -/
theorem signed_mul_signed (s t : Sign) (v w : ℚ) :
    signed s v * signed t w = signed (s * t) (v * w) := by
  cases s <;> cases t
  · exact neg_mul_neg v w
  · exact neg_mul v w
  · exact mul_neg v w
  · rfl

/-- Signs divide. -/
theorem signed_div_signed (s t : Sign) (v w : ℚ) :
    signed s v / signed t w = signed (s / t) (v / w) := by
  cases s <;> cases t
  · exact neg_div_neg_eq v w
  · exact neg_div w v
  · exact div_neg v
  · rfl

/-- The product of two doubles. -/
theorem rounded_mul (s t : Sign) {m n : Magnitude} (hm : m.Canonical) (hn : n.Canonical) :
    Rounded (signed s m.value * signed t n.value)
      (mul .binary64 (unpacked s m) (unpacked t n)) := by
  by_cases hzm : m.significand = 0
  · rw [Magnitude.value_eq_zero hzm, signed_zero, zero_mul]
    by_cases hzn : n.significand = 0 <;>
      simp only [unpacked, hzm, hzn, dif_pos, dif_neg, not_false_eq_true, mul] <;> exact .zero _
  · by_cases hzn : n.significand = 0
    · rw [Magnitude.value_eq_zero hzn, signed_zero, mul_zero]
      simp only [unpacked, hzm, hzn, dif_pos, dif_neg, not_false_eq_true, mul]
      exact .zero _
    · have hlarge : 52 ≤ (m.significand * n.significand).log2 ∨
          m.exponent + n.exponent ≤ -1074 := by
        rw [Nat.le_log2 (Nat.mul_ne_zero hzm hzn)]
        rcases hm.normal with h | h
        · exact Or.inl (h.trans (Nat.le_mul_of_pos_right _ (Nat.pos_of_ne_zero hzn)))
        · rcases hn.normal with h' | h'
          · exact Or.inl (h'.trans (Nat.le_mul_of_pos_left _ (Nat.pos_of_ne_zero hzm)))
          · omega
      obtain ⟨k, hk, hround, hr⟩ := exists_roundWithAccuracy (s * t)
        (extends_exact (m.significand * n.significand)) hlarge
      have hvalue : ((m.significand * n.significand : ℕ) : ℚ) * 2 ^ (m.exponent + n.exponent) =
          m.value * n.value := by
        rw [zpow_add₀ (by norm_num), Magnitude.value, Magnitude.value]
        push_cast
        ring
      rw [hvalue] at hr
      rw [signed_mul_signed]
      simp only [unpacked, hzm, hzn, dif_neg, not_false_eq_true, mul]
      rw [hround]
      exact .of_rounds hk hr (mul_nonneg m.value_nonneg n.value_nonneg)

/-- The remainder of a division shows how the quotient goes on. -/
theorem extends_accuracyOfFraction (a : ℕ) {b : ℕ} (hb : 0 < b) :
    Extends (.ofMantissaAndAccuracy (a / b) (accuracyOfFraction (a % b) b)) (a / b) := by
  have hbq : (0 : ℚ) < b := by exact_mod_cast hb
  have hdiv : (a : ℚ) / b = (a / b : ℕ) + (a % b : ℕ) / b := by
    have hsum : (a : ℚ) = b * (a / b : ℕ) + (a % b : ℕ) := by
      exact_mod_cast (Nat.div_add_mod a b).symm
    field_simp
    linarith
  have hmod : ((a % b : ℕ) : ℚ) / b < 1 := by
    rw [div_lt_one hbq]
    exact_mod_cast Nat.mod_lt a hb
  rw [hdiv]
  generalize a % b = r at *
  unfold accuracyOfFraction
  split
  · next hr =>
    rw [hr, Nat.cast_zero, zero_div, add_zero]
    exact extends_exact _
  · next hr =>
    have hpos : (0 : ℚ) < r / b := div_pos (by exact_mod_cast Nat.pos_of_ne_zero hr) hbq
    rcases lt_trichotomy (2 * r) b with h | h | h
    · have hhalf : (r : ℚ) / b < 1 / 2 := by
        rw [div_lt_iff₀ hbq]
        have : (2 * r : ℚ) < b := by exact_mod_cast h
        linarith
      rw [compare_lt_iff_lt.mpr h]
      constructor <;> simp only [roundBase, ExtendedMantissa.ofMantissaAndAccuracy,
        Bool.false_eq_true, if_false, add_zero, reduceCtorEq, false_iff] <;> linarith
    · have hhalf : (r : ℚ) / b = 1 / 2 := by
        rw [div_eq_iff hbq.ne']
        have : (2 * r : ℚ) = b := by exact_mod_cast h
        linarith
      rw [compare_eq_iff_eq.mpr h]
      constructor <;> simp [roundBase, ExtendedMantissa.ofMantissaAndAccuracy, hhalf]
    · have hhalf : 1 / 2 < (r : ℚ) / b := by
        rw [lt_div_iff₀ hbq]
        have : (b : ℚ) < 2 * r := by exact_mod_cast h
        linarith
      rw [compare_gt_iff_gt.mpr h]
      constructor <;> simp only [roundBase, ExtendedMantissa.ofMantissaAndAccuracy, if_true,
        reduceCtorEq, false_iff] <;> linarith

/-- The quotient of two doubles. -/
theorem rounded_div (s t : Sign) {m n : Magnitude} (hn : n.significand ≠ 0) :
    Rounded (signed s m.value / signed t n.value)
      (div .binary64 (unpacked s m) (unpacked t n)) := by
  by_cases hzm : m.significand = 0
  · rw [Magnitude.value_eq_zero hzm, signed_zero, zero_div]
    simp only [unpacked, hzm, hn, dif_pos, dif_neg, not_false_eq_true, div]
    exact .zero _
  · -- The exponent of the quotient, and the digits that the dividend gains for it.
    obtain ⟨e, he⟩ : ∃ e, e = min (m.exponent - n.exponent)
        (max (m.significand.log2 + 1 + m.exponent - (n.significand.log2 + 1 + n.exponent) - 53)
          (-1074)) := ⟨_, rfl⟩
    obtain ⟨k, hk⟩ : ∃ k : ℕ, m.exponent - n.exponent = e + k :=
      ⟨(m.exponent - n.exponent - e).toNat, by omega⟩
    have hcore : divCore .binary64 m.significand m.exponent n.significand n.exponent =
        ((m.significand <<< k) / n.significand, e,
          accuracyOfFraction ((m.significand <<< k) % n.significand) n.significand) := by
      have hshift : (m.exponent - n.exponent - e).toNat = k := by omega
      simp only [divCore, targetExponent_eq, totalExponent, ← he, hshift]
    have hlarge : 52 ≤ ((m.significand <<< k) / n.significand).log2 ∨ e ≤ -1074 := by
      rcases le_or_gt e (-1074) with h | h
      · exact Or.inr h
      · have hdigits : 2 ^ 52 * n.significand ≤ m.significand <<< k :=
          calc 2 ^ 52 * n.significand
              ≤ 2 ^ 52 * 2 ^ (n.significand.log2 + 1) :=
                Nat.mul_le_mul_left _ Nat.lt_log2_self.le
            _ = 2 ^ (52 + (n.significand.log2 + 1)) := (pow_add 2 52 _).symm
            _ ≤ 2 ^ (m.significand <<< k).log2 := by
              rw [log2_shiftLeft hzm]
              exact Nat.pow_le_pow_right (by norm_num) (by omega)
            _ ≤ m.significand <<< k := Nat.log2_self_le (by simp [Nat.shiftLeft_eq, hzm])
        have hquotient := (Nat.le_div_iff_mul_le (Nat.pos_of_ne_zero hn)).mpr hdigits
        exact Or.inl ((Nat.le_log2 (by omega)).mpr hquotient)
    obtain ⟨q, hq, hround, hr⟩ := exists_roundWithAccuracy (s / t)
      (extends_accuracyOfFraction (m.significand <<< k) (Nat.pos_of_ne_zero hn)) hlarge
    have hvalue : ((m.significand <<< k : ℕ) : ℚ) / n.significand * 2 ^ e =
        m.value / n.value := by
      have hexp : m.exponent = e + k + n.exponent := by omega
      rw [Magnitude.value, Magnitude.value, hexp, zpow_add₀ (by norm_num), zpow_add₀ (by norm_num),
        Nat.shiftLeft_eq, zpow_natCast]
      push_cast
      have hunit : (2 : ℚ) ^ n.exponent ≠ 0 := zpow_ne_zero _ (by norm_num)
      field_simp
    rw [hvalue] at hr
    rw [signed_div_signed]
    simp only [unpacked, hzm, hn, dif_neg, not_false_eq_true, div, hcore]
    rw [hround]
    exact .of_rounds hq hr (div_nonneg m.value_nonneg n.value_nonneg)

end Rounding

end CurvePlot
