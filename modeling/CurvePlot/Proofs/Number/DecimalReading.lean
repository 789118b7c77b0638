import CurvePlot.Proofs.Number.DecimalText
import CurvePlot.Proofs.Number.WholeNumbers

/-!
# Decimals are read to the nearest double

A numeral of any size is turned into the double that it rounds to (`Numeral.roundsTo_toFloat`). The
short decimal of a finite double therefore reads back as the double, in every spelling
(`Double.read?_write`).
-/

namespace CurvePlot

open Magnitude

namespace Double

/-! ### The table of powers of ten -/

/-- Whether a double is a power of ten, as can be seen from its magnitude in units of `2 ^ (-60)`. -/
def isPowerOfTen (k : ℕ) (x : Float) : Bool :=
  x.isFinite && !isNegative x && decide (-60 ≤ (ofFloat x).exponent) &&
    (ofFloat x).significand * 2 ^ ((ofFloat x).exponent + 60).toNat == 10 ^ k * 2 ^ 60

/-- Such a double has this value. -/
theorem value_of_isPowerOfTen {k : ℕ} {x : Float} (h : isPowerOfTen k x = true) :
    x.isFinite = true ∧ value x = 10 ^ k := by
  simp only [isPowerOfTen, Bool.and_eq_true, Bool.not_eq_true', decide_eq_true_eq, beq_iff_eq] at h
  obtain ⟨⟨⟨hfinite, hsign⟩, hexponent⟩, hunits⟩ := h
  have hpositive : sign x = .positive := by simp [sign, hsign]
  have hscaled : (2 : ℚ) ^ (ofFloat x).exponent * 2 ^ 60 =
      2 ^ ((ofFloat x).exponent + 60).toNat := by
    rw [← zpow_natCast, ← zpow_natCast, ← zpow_add₀ (by norm_num), Int.toNat_of_nonneg (by omega)]
    rfl
  have hcast : ((ofFloat x).significand : ℚ) * 2 ^ ((ofFloat x).exponent + 60).toNat =
      10 ^ k * 2 ^ 60 := by exact_mod_cast hunits
  refine ⟨hfinite, ?_⟩
  rw [value, hpositive, signed, Magnitude.value]
  rw [← hscaled, ← mul_assoc] at hcast
  exact mul_right_cancel₀ (by norm_num) hcast

/-- The table holds the powers of ten. -/
theorem isPowerOfTen_table (i : Fin Float.exactlyRepresentablePowersOfTen.size) :
    isPowerOfTen i Float.exactlyRepresentablePowersOfTen[i] = true := by
  have htable : ∀ i : Fin Float.exactlyRepresentablePowersOfTen.size,
      isPowerOfTen i Float.exactlyRepresentablePowersOfTen[i] = true := by
    decide +kernel
  exact htable i

/-! ### Reading -/

/-- A whole number of at most 53 binary digits is kept. -/
theorem value_toUInt64 {n : ℕ} (hn : n < 2 ^ 53) :
    n.toUInt64.toFloat.isFinite = true ∧ value n.toUInt64.toFloat = n := by
  have hcount : n.toUInt64.toNat = n := UInt64.toNat_ofNat_of_lt' (by rw [UInt64.size]; omega)
  have hexact := roundsTo_uint64 n.toUInt64
  rw [hcount] at hexact
  exact hexact.value_eq_int (z := n) (by omega)

/-- A significand times a power of ten is correctly rounded, unless its size alone settles it. -/
theorem roundsTo_ofScientific {n : ℕ} (hn : n ≠ 0) (k : ℕ) :
    ((k : ℤ) ≤ 2 ^ 11 → RoundsTo (n * 10 ^ (k : ℤ)) (Float.ofScientific n false k)) ∧
      ((k : ℤ) ≤ 2 ^ 11 + n.log2 → RoundsTo (n * 10 ^ (-k : ℤ)) (Float.ofScientific n true k)) := by
  by_cases hfast : n < 2 ^ 53 ∧ k ≤ 22
  · obtain ⟨hn53, hk⟩ := hfast
    obtain ⟨hfinite, hvalue⟩ := value_toUInt64 hn53
    have hsize : k < Float.exactlyRepresentablePowersOfTen.size := Nat.lt_succ_of_le hk
    obtain ⟨hpfinite, hpvalue⟩ := value_of_isPowerOfTen (isPowerOfTen_table ⟨k, hsize⟩)
    have hproduct := roundsTo_mul hfinite hpfinite
    have hquotient := roundsTo_div hfinite hpfinite (by rw [hpvalue]; positivity)
    rw [hvalue, hpvalue] at hproduct hquotient
    constructor <;> intro _
    · rw [Float.ofScientific, dif_pos ⟨hn53, hk⟩, zpow_natCast]
      exact hproduct
    · rw [Float.ofScientific, dif_pos ⟨hn53, hk⟩, zpow_neg, zpow_natCast, ← div_eq_mul_inv]
      exact hquotient
  · constructor <;> intro hk
    · have hrounded := Rounding.rounded_ofScientific hn hk (by omega)
      rw [Float.ofScientific, dif_neg hfast]
      exact roundsTo_pack hrounded
    · have hrounded := Rounding.rounded_ofScientific hn (e := -k) (by omega) (by omega)
      rw [Float.ofScientific, dif_neg hfast]
      have hneg : Int.negOfNat k = -k := Int.negOfNat_eq
      rw [if_pos rfl, hneg]
      exact roundsTo_pack hrounded

/-- From `2 ^ 1024` on, numbers round to the infinity. -/
theorem roundsTo_infinity {v : ℚ} (h : 2 ^ (1024 : ℤ) ≤ v) : RoundsTo v infinity := by
  have hpos : 0 < v := lt_of_lt_of_le (by positivity) h
  have hoverflow : overflow ≤ v :=
    calc overflow ≤ 2 ^ (54 : ℤ) * 2 ^ (970 : ℤ) :=
          mul_le_mul_of_nonneg_right (by norm_num) (by positivity)
      _ = 2 ^ (1024 : ℤ) := by rw [← zpow_add₀ (by norm_num)]; rfl
      _ ≤ v := h
  have hfinite : infinity.isFinite = false := rfl
  refine ⟨rfl, ?_, fun hx => ?_, fun hneg => absurd hneg hpos.not_gt, fun _ => ?_⟩
  · simp [hfinite, abs_of_pos hpos, hoverflow]
  · rw [hfinite] at hx
    cases hx
  · rfl

/-- Up to half of the least double, numbers round to zero. -/
theorem roundsTo_zero {v : ℚ} (hnonneg : 0 ≤ v) (h : v ≤ 2 ^ (-1075 : ℤ)) : RoundsTo v 0 := by
  have hmagnitude : ofFloat 0 = Magnitude.zero := rfl
  have hhalf : (2 : ℚ) * 2 ^ (-1075 : ℤ) = 2 ^ (-1074 : ℤ) := by
    rw [← zpow_one_add₀ (by norm_num)]
    rfl
  have hbelow : v < overflow := by
    refine h.trans_lt ?_
    rw [overflow]
    have hle : (2 : ℚ) ^ (-1075 : ℤ) ≤ 2 ^ (970 : ℤ) :=
      zpow_le_zpow_right₀ (by norm_num) (by norm_num)
    have hunit : (0 : ℚ) < 2 ^ (970 : ℤ) := by positivity
    generalize (2 : ℚ) ^ (970 : ℤ) = unit at *
    linarith
  refine ⟨rfl, ?_, fun _ => ?_, fun hneg => absurd hneg hnonneg.not_gt, fun _ => ?_⟩
  · simp [value_zero.1, abs_of_nonneg hnonneg, hbelow]
  · rw [hmagnitude, abs_of_nonneg hnonneg]
    have hlow : Magnitude.zero.lowEnd = 0 := rfl
    have hhigh : Magnitude.zero.highEnd = 2 := rfl
    have hexponent : Magnitude.zero.exponent = -1074 := rfl
    rw [Rounds, hlow, hhigh, hexponent, ← hhalf]
    refine ⟨by simpa using hnonneg, ?_, fun hodd => absurd hodd (by decide)⟩
    rw [Nat.cast_ofNat]
    linarith
  · rfl

end Double

namespace Numeral

open Double

/-- A decimal digit is worth more than three binary ones. -/
theorem le_value {n : Numeral} (hn : n.significand ≠ 0) (he : 0 ≤ n.exponent) :
    (2 : ℚ) ^ (n.significand.log2 + 3 * n.exponent : ℤ) ≤ n.value := by
  have hlow : ((2 : ℚ) ^ n.significand.log2) ≤ n.significand := by
    exact_mod_cast Nat.log2_self_le hn
  obtain ⟨k, hk⟩ := Int.eq_ofNat_of_zero_le he
  have hpower : (2 : ℚ) ^ (3 * k) ≤ 10 ^ k := by
    rw [pow_mul]
    exact pow_le_pow_left₀ (by norm_num) (by norm_num) k
  rw [value, hk, zpow_add₀ (by norm_num), zpow_natCast, zpow_natCast]
  exact mul_le_mul hlow (by exact_mod_cast hpower) (by positivity) (by positivity)

/-- So is one behind the point. -/
theorem value_le {n : Numeral} (he : n.exponent ≤ 0) :
    n.value ≤ (2 : ℚ) ^ (n.significand.log2 + 1 + 3 * n.exponent : ℤ) := by
  have hhigh : (n.significand : ℚ) ≤ 2 ^ (n.significand.log2 + 1) := by
    exact_mod_cast Nat.lt_log2_self.le
  obtain ⟨k, hk⟩ : ∃ k : ℕ, n.exponent = -k := ⟨(-n.exponent).toNat, by omega⟩
  have hpower : ((10 : ℚ) ^ k)⁻¹ ≤ (2 ^ (3 * k))⁻¹ := by
    rw [pow_mul]
    gcongr
    norm_num
  have hexponent : (2 : ℚ) ^ (n.significand.log2 + 1 + 3 * n.exponent : ℤ) =
      2 ^ (n.significand.log2 + 1) * (2 ^ (3 * k))⁻¹ := by
    rw [hk, mul_neg, ← sub_eq_add_neg, zpow_sub₀ (by norm_num), div_eq_mul_inv]
    norm_cast
  rw [value, hexponent, hk, zpow_neg, zpow_natCast]
  exact mul_le_mul hhigh hpower (by positivity) (by positivity)

/-- A numeral is turned into the double that it rounds to. -/
theorem roundsTo_toFloat (n : Numeral) : RoundsTo n.value n.toFloat := by
  unfold toFloat
  by_cases hz : n.significand = 0
  · have hvalue : n.value = 0 := by simp [value, hz]
    rw [hvalue, if_pos (by simp [hz])]
    exact roundsTo_zero le_rfl (by positivity)
  have hnonneg : 0 ≤ n.value := by
    unfold value
    positivity
  rw [if_neg (by simp [hz])]
  obtain ⟨hproduct, hquotient⟩ := roundsTo_ofScientific hz n.exponent.natAbs
  split
  · next he =>
    have habs : (n.exponent.natAbs : ℤ) = n.exponent := by omega
    split
    · next hlarge =>
      refine roundsTo_infinity (le_trans ?_ (le_value hz he))
      exact zpow_le_zpow_right₀ (by norm_num) (by omega)
    · next hlarge =>
      rw [habs] at hproduct
      exact hproduct (by omega)
  · next he =>
    have habs : (n.exponent.natAbs : ℤ) = -n.exponent := by omega
    split
    · next hsmall =>
      refine roundsTo_zero hnonneg ((value_le (by omega)).trans ?_)
      exact zpow_le_zpow_right₀ (by norm_num) (by omega)
    · next hsmall =>
      rw [habs, neg_neg] at hquotient
      exact hquotient (by omega)

/-- It has no minus sign. -/
theorem sign_toFloat (n : Numeral) : sign n.toFloat = .positive := by
  by_cases hz : n.significand = 0
  · rw [toFloat, if_pos (by simp [hz])]
    rfl
  · refine n.roundsTo_toFloat.positive ?_
    unfold value
    have hpos : 0 < n.significand := Nat.pos_of_ne_zero hz
    positivity

/-- A numeral that rounds to a magnitude below the overflow is turned into it. -/
theorem ofFloat_toFloat {n : Numeral} {m : Magnitude} (hm : m.Canonical) (he : m.exponent ≤ 971)
    (h : m.Rounds n.value) : n.toFloat.isFinite = true ∧ ofFloat n.toFloat = m := by
  have hround := n.roundsTo_toFloat
  have habs : |n.value| = n.value := abs_of_nonneg (by unfold value; positivity)
  have hfinite : n.toFloat.isFinite = true :=
    hround.isFinite_iff.mpr (habs.trans_lt ((exponent_le_iff_of_rounds hm h).mp he))
  have hrounds := hround.rounds hfinite
  rw [habs] at hrounds
  exact ⟨hfinite, eq_of_rounds (canonical_ofFloat _) hm hrounds h⟩

end Numeral

/-- The shortest decimal of a magnitude rounds to it. -/
theorem Shortest.rounds_decimal_of_canonical (tie : Tie) {m : Magnitude} (hm : m.Canonical) :
    m.Rounds (decimal tie m).value := by
  rcases Nat.eq_zero_or_pos m.significand with hz | hpos
  · rw [value_decimal_of_zero tie hz, ← value_eq_zero hz]
    exact rounds_self hm
  · exact rounds_decimal tie hpos

/-- A finite double is read back from its text. -/
theorem Double.read?_write (s : Spelling) {x : Float} (hx : x.isFinite = true) :
    read? (s.write x).toList = some x := by
  have hsign : ∀ c ∈ (if isNegative x then some '-' else none), c = '+' ∨ c = '-' := by
    intro c hc
    split at hc <;> cases hc
    exact Or.inr rfl
  have hwell := Spelling.wellFormed_literal s (Shortest.decimal s.tie (ofFloat x))
  have hrounds : (ofFloat x).Rounds
      (s.literal (Shortest.decimal s.tie (ofFloat x))).numeral.value := by
    rw [Spelling.value_literal]
    exact Shortest.rounds_decimal_of_canonical s.tie (canonical_ofFloat x)
  obtain ⟨hfinite, hmagnitude⟩ := Numeral.ofFloat_toFloat (canonical_ofFloat x)
    (exponent_le_of_isFinite hx) hrounds
  have hpositive := (s.literal (Shortest.decimal s.tie (ofFloat x))).numeral.sign_toFloat
  rw [Spelling.toList_write hx, read?_append_text hsign hwell, Option.some_inj, Literal.toFloat]
  cases hneg : isNegative x with
  | false =>
    have hsame : sign x = .positive := by rw [sign, hneg]; rfl
    exact eq_of_sign (hpositive.trans hsame.symm) hmagnitude
  | true =>
    obtain ⟨-, hopposite, hsame⟩ := sign_neg hfinite
    refine eq_of_sign ?_ (hsame.trans hmagnitude)
    rw [if_pos (by rfl), hopposite, hpositive, sign, hneg]
    rfl

end CurvePlot
