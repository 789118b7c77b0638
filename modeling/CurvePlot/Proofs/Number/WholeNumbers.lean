import CurvePlot.Proofs.Number.Arithmetic

/-!
# Whole numbers and doubles

A natural number of any size is turned into the double that it rounds to (`Double.roundsTo_nat`); below
`2 ^ 53` that is the number itself. In the other direction the places behind the point are dropped
(`Double.toNat_toUInt64`).
-/

namespace CurvePlot

open Float.Model (UnpackedFloat Format)
open Float.Model.UnpackedFloat
open Magnitude

namespace Rounding

/-- A significand times a power of ten is correctly rounded, unless its size alone settles it. -/
theorem rounded_ofScientific {n : ℕ} (hn : n ≠ 0) {e : ℤ} (hhigh : e ≤ 2 ^ 11)
    (hlow : -(2 ^ 11 + n.log2) ≤ e) : Rounded (n * 10 ^ e) (ofScientific .binary64 n e) := by
  have hbits : (2 : ℤ) ^ Format.binary64.exponentBits = 2 ^ 11 := rfl
  have hdigits : Format.binary64.mantissaBits = 53 := rfl
  have hsign : Sign.positive * .positive = .positive := rfl
  rw [ofScientific, dif_neg hn, if_neg (by omega), if_neg (by omega)]
  rcases le_or_gt 0 e with he | he
  · obtain ⟨k, rfl⟩ := Int.eq_ofNat_of_zero_le he
    have hpower : 1 ≤ 10 ^ k := Nat.one_le_pow _ _ (by norm_num)
    have hnonzero : n <<< 53 * 10 ^ k ≠ 0 := by
      rw [Nat.shiftLeft_eq]
      positivity
    have hlarge : 52 ≤ (n <<< 53 * 10 ^ k).log2 ∨ (-53 + 0 : ℤ) ≤ -1074 := by
      rw [Nat.le_log2 hnonzero, Nat.shiftLeft_eq]
      exact Or.inl (by nlinarith [Nat.pos_of_ne_zero hn])
    obtain ⟨m, hm, hround, hr⟩ := exists_roundWithAccuracy .positive
      (extends_exact (n <<< 53 * 10 ^ k)) hlarge
    have hvalue : ((n <<< 53 * 10 ^ k : ℕ) : ℚ) * 2 ^ (-53 + 0 : ℤ) = n * 10 ^ (k : ℤ) := by
      rw [add_zero, Nat.shiftLeft_eq, zpow_natCast]
      push_cast
      norm_num
      ring
    rw [hvalue] at hr
    rw [if_pos he, mul, hsign, hdigits, Int.toNat_natCast, Nat.cast_ofNat, hround]
    exact .of_rounds (s := .positive) hm hr (by positivity)
  · obtain ⟨k, rfl⟩ : ∃ k : ℕ, e = -k := ⟨(-e).toNat, by omega⟩
    have hpower : 10 ^ k ≠ 0 := by positivity
    have hquotient := rounded_div .positive .positive (m := ofParts n 0) (n := ofParts (10 ^ k) 0)
      hpower
    have hunpacked : ∀ {m : ℕ} (hm : m ≠ 0),
        unpacked .positive (ofParts m 0) = finite .positive m 0 (Nat.pos_of_ne_zero hm) :=
      fun hm => dif_neg hm
    have hvalue : signed .positive (ofParts n 0).value / signed .positive (ofParts (10 ^ k) 0).value =
        n * 10 ^ (-k : ℤ) := by
      simp [signed, Magnitude.value, ofParts, div_eq_mul_inv]
    rw [hvalue, hunpacked hn, hunpacked hpower] at hquotient
    simpa only [if_neg (not_le.mpr he), neg_neg, Int.toNat_natCast] using hquotient

/-- The integer part of a number drops the places behind the point. -/
theorem roundToInt_positive (m : ℕ) (e : ℤ) :
    roundToInt .positive m e = ((⌊(m : ℚ) * 2 ^ e⌋₊ : ℕ) : ℤ) := by
  have hshift : roundToInt .positive m e =
      ((m <<< (e - 0).toNat / 2 ^ (0 - (e - (e - 0).toNat)).toNat : ℕ) : ℤ) :=
    congrArg Int.ofNat
      (mantissa_shiftRight (.ofMantissaAndAccuracy (m <<< (e - 0).toNat) .exact) _)
  rw [hshift, Nat.shiftLeft_eq, Nat.cast_inj]
  rcases le_total 0 e with he | he
  · obtain ⟨k, rfl⟩ := Int.eq_ofNat_of_zero_le he
    have hup : ((k : ℤ) - 0).toNat = k := by omega
    have hdown : (0 - ((k : ℤ) - k)).toNat = 0 := by omega
    rw [hup, hdown, pow_zero, Nat.div_one, zpow_natCast]
    exact_mod_cast (Nat.floor_natCast (R := ℚ) (m * 2 ^ k)).symm
  · obtain ⟨k, rfl⟩ : ∃ k : ℕ, e = -k := ⟨(-e).toNat, by omega⟩
    have hup : (-(k : ℤ) - 0).toNat = 0 := by omega
    have hdown : (0 - (-(k : ℤ) - (0 : ℕ))).toNat = k := by omega
    rw [hup, hdown, pow_zero, mul_one, zpow_neg, zpow_natCast, ← div_eq_mul_inv]
    exact_mod_cast (Nat.floor_div_eq_div (K := ℚ) m (2 ^ k)).symm

end Rounding

namespace Double

/-- Whole numbers of 64 bits are correctly rounded. -/
theorem roundsTo_uint64 (n : UInt64) : RoundsTo n.toNat n.toFloat := by
  have h := Rounding.rounded_normalize n.toNat 0 .positive
  rw [zpow_zero, mul_one] at h
  exact roundsTo_pack h

/-- Natural numbers are correctly rounded. -/
theorem roundsTo_nat (n : ℕ) : RoundsTo n n.toFloat := by
  rcases Nat.lt_or_ge n (2 ^ 53) with hn | hn
  · have hcount : n.toUInt64.toNat = n := UInt64.toNat_ofNat_of_lt' (by rw [UInt64.size]; omega)
    have hexact := roundsTo_uint64 n.toUInt64
    rw [hcount] at hexact
    obtain ⟨hfinite, hvalue⟩ := hexact.value_eq_int (z := n) (by omega)
    have hproduct := roundsTo_mul hfinite value_one.1
    rw [hvalue, value_one.2, mul_one] at hproduct
    have hunit : Float.ofBits 0x3FF0000000000000 = 1 := rfl
    have heq : n.toFloat = n.toUInt64.toFloat * 1 := by
      rw [← hunit]
      exact dif_pos ⟨hn, by norm_num⟩
    rw [heq]
    exact_mod_cast hproduct
  · have heq : n.toFloat = .ofModel (.pack (ofScientific .binary64 n 0)) := dif_neg (by omega)
    rw [heq]
    have hrounded := Rounding.rounded_ofScientific (n := n) (e := 0) (by omega) (by norm_num)
      (by omega)
    rw [zpow_zero, mul_one] at hrounded
    exact roundsTo_pack hrounded

/-- A natural number of at most 53 binary digits is a double. -/
theorem value_nat {n : ℕ} (hn : n < 2 ^ 53) : n.toFloat.isFinite = true ∧ value n.toFloat = n :=
  (roundsTo_nat n).value_eq_int (z := n) (by omega)

/-- A positive natural number has a double that is at least one. -/
theorem one_le_value_nat {n : ℕ} (hn : 1 ≤ n) (hfinite : n.toFloat.isFinite = true) :
    1 ≤ value n.toFloat := by
  have hle := (roundsTo_value value_one.1).value_le (roundsTo_nat n)
    (by rw [value_one.2]; exact_mod_cast hn) value_one.1 hfinite
  rwa [value_one.2] at hle

/-- Turning a double into a whole number of 64 bits drops the places behind the point. -/
theorem toNat_toUInt64 {x : Float} (hx : x.isFinite = true) (hnonneg : 0 ≤ value x)
    (hlt : value x < 2 ^ 64) : x.toUInt64.toNat = ⌊value x⌋₊ := by
  have hconvert : x.toUInt64 =
      .ofNatClamp ((unpacked (sign x) (ofFloat x)).toInt 0 (UInt64.size - 1)).toNat := by
    rw [← unpack_of_isFinite hx]
    rfl
  have hfloor : ((unpacked (sign x) (ofFloat x)).toInt 0 (UInt64.size - 1)).toNat =
      ⌊value x⌋₊ := by
    by_cases hz : (ofFloat x).significand = 0
    · rw [value, value_eq_zero hz, Rounding.signed_zero, Nat.floor_zero, unpacked, dif_pos hz]
      rfl
    · have hsign : sign x = .positive := by
        cases hs : sign x
        · rw [value, hs, signed] at hnonneg
          linarith [value_pos hz]
        · rfl
      rw [unpacked, dif_neg hz, hsign, value, hsign, signed, Magnitude.value]
      change (roundToInt .positive _ _).toNat = _
      rw [Rounding.roundToInt_positive, Int.toNat_natCast]
  have hsmall : ⌊value x⌋₊ < UInt64.size := (Nat.floor_lt hnonneg).mpr (by exact_mod_cast hlt)
  rw [hconvert, hfloor, UInt64.ofNatClamp, dif_pos hsmall, UInt64.toNat_ofNatLT]

end Double

end CurvePlot
