import CurvePlot.Proofs.Number.Arithmetic

/-!
# How far a number is from its double

A number and the double that it rounds to differ by at most half a unit in the last place. For the
normal doubles, from `2 ^ (-1022)` on, this is one part in `2 ^ 53` of the double
(`Double.RoundsTo.le_of_normal`); below they all have the unit `2 ^ (-1074)`, and what is lost no longer
shrinks with the number (`Double.RoundsTo.le_of_subnormal`). A positive number above the overflow
becomes the infinity, which is above all finite doubles.
-/

namespace CurvePlot

open Float.Model (UnpackedFloat)
open Float.Model.UnpackedFloat (Sign unpackExponent unpackMantissa)
open Magnitude

namespace Magnitude

variable {m : Magnitude} {v : ℚ}

/-- A number is within half a unit in the last place of its magnitude. -/
theorem abs_sub_value_le_of_rounds (h : m.Rounds v) : |v - m.value| ≤ 2 ^ m.exponent / 2 := by
  have hunit : (0 : ℚ) < 2 ^ m.exponent := zpow_pos (by norm_num) _
  have hlow : (4 * m.significand : ℚ) - 2 ≤ m.lowEnd := by
    have : 4 * m.significand ≤ m.lowEnd + 2 := by
      unfold lowEnd
      split <;> omega
    rw [sub_le_iff_le_add]
    exact_mod_cast this
  have hhigh : (m.highEnd : ℚ) = 4 * m.significand + 2 := by
    unfold highEnd
    push_cast
    rfl
  have hbelow := (mul_le_mul_of_nonneg_right hlow hunit.le).trans h.1
  have habove := h.2.1
  rw [hhigh] at habove
  rw [abs_le, value]
  constructor <;> linarith

/-- The unit in the last place is at most one part in `2 ^ 52` of a magnitude with all its digits. -/
theorem unit_le_of_normal (h : 2 ^ 52 ≤ m.significand) : (2 : ℚ) ^ m.exponent ≤ m.value / 2 ^ 52 := by
  have hunit : (0 : ℚ) < 2 ^ m.exponent := zpow_pos (by norm_num) _
  have hs : (2 ^ 52 : ℚ) ≤ m.significand := by exact_mod_cast h
  rw [le_div_iff₀ (by positivity), value, mul_comm]
  exact mul_le_mul_of_nonneg_right hs hunit.le

end Magnitude

namespace Double

variable {v : ℚ} {x y : Float}

/-- A double is a whole number of every power of two up to its unit in the last place. -/
theorem exists_mul_zpow {e : ℤ} (he : e ≤ (ofFloat x).exponent) :
    ∃ z : ℤ, value x = z * 2 ^ e := by
  obtain ⟨k, hk⟩ := Int.le.dest he
  obtain ⟨a, ha⟩ : ∃ a : ℕ, (ofFloat x).value = a * 2 ^ e :=
    ⟨(ofFloat x).significand * 2 ^ k, by
      rw [Magnitude.value, ← hk, add_comm, zpow_add₀ (by norm_num), zpow_natCast, ← mul_assoc,
        Nat.cast_mul, Nat.cast_pow, Nat.cast_ofNat]⟩
  unfold value
  rw [ha]
  cases sign x with
  | negative => exact ⟨-a, by rw [signed, Int.cast_neg, Int.cast_natCast, neg_mul]⟩
  | positive => exact ⟨a, by rw [signed, Int.cast_natCast]⟩

/-- So it is of a power of two with 53 binary digits more than it has. -/
theorem exists_mul_zpow_of_le {e : ℤ} (h : 2 ^ (e + 52) ≤ |value x|) :
    ∃ z : ℤ, value x = z * 2 ^ e := by
  refine exists_mul_zpow ?_
  have hs : ((ofFloat x).significand : ℚ) < 2 ^ (53 : ℤ) := by
    exact_mod_cast (canonical_ofFloat x).significand_lt
  have hless : |value x| < 2 ^ (53 + (ofFloat x).exponent) := by
    rw [abs_value, Magnitude.value, zpow_add₀ (by norm_num)]
    exact mul_lt_mul_of_pos_right hs (zpow_pos (by norm_num) _)
  have hexponent := (zpow_lt_zpow_iff_right₀ (show (1 : ℚ) < 2 by norm_num)).mp (h.trans_lt hless)
  omega

/-- Every finite double is a whole number of the least units. -/
theorem exists_units (x : Float) : ∃ z : ℤ, value x = z * 2 ^ (-1074 : ℤ) :=
  exists_mul_zpow (canonical_ofFloat x).least_exponent

/-- A double below one of these units is not positive. -/
theorem value_le_zero_of_lt (h : value x < 2 ^ (-1074 : ℤ)) : value x ≤ 0 := by
  obtain ⟨z, hz⟩ := exists_units x
  have hunit : (0 : ℚ) < 2 ^ (-1074 : ℤ) := zpow_pos (by norm_num) _
  rw [hz] at h ⊢
  have hlt : (z : ℚ) < 1 := (mul_lt_iff_lt_one_left hunit).mp h
  have hle : z ≤ 0 := by
    have : z < 1 := by exact_mod_cast hlt
    omega
  exact mul_nonpos_of_nonpos_of_nonneg (by exact_mod_cast hle) hunit.le

/-- Every number of at most 53 binary digits within the range of the exponents is a double. -/
theorem exists_value_eq_mul {s : ℕ} (hs : s < 2 ^ 53) {e : ℤ} (hlow : -1074 ≤ e) (hhigh : e ≤ 971) :
    ∃ d : Float, d.isFinite = true ∧ value d = s * 2 ^ e := by
  obtain ⟨k, rfl⟩ : ∃ k : ℕ, e = -1074 + k := ⟨(e + 1074).toNat, by omega⟩
  obtain ⟨m, hm, he, hvalue⟩ := exists_canonical k hs
  obtain ⟨hfinite, hsign, hmagnitude⟩ := ofModel_pack_unpacked .positive hm (by omega)
  exact ⟨_, hfinite, by rw [value, hsign, hmagnitude, signed, hvalue]⟩

/-- The half of a double from one on is a double. -/
theorem exists_half (hx : x.isFinite = true) (h : 1 ≤ value x) :
    ∃ d : Float, d.isFinite = true ∧ value d = value x / 2 := by
  have hm := canonical_ofFloat x
  have hvalue : value x = (ofFloat x).value := by
    have habs := abs_value x
    rwa [abs_of_nonneg (by linarith)] at habs
  have hlow : -1074 < (ofFloat x).exponent := by
    by_contra hle
    have he : (ofFloat x).exponent = -1074 := by
      have := hm.least_exponent
      omega
    have hs : ((ofFloat x).significand : ℚ) < 2 ^ 53 := by exact_mod_cast hm.significand_lt
    have hsmall : (ofFloat x).value < 2 ^ 53 * 2 ^ (-1074 : ℤ) := by
      rw [Magnitude.value, he]
      exact mul_lt_mul_of_pos_right hs (zpow_pos (by norm_num) _)
    have hone : (2 : ℚ) ^ 53 * 2 ^ (-1074 : ℤ) ≤ 1 := by
      rw [← zpow_natCast, ← zpow_add₀ (by norm_num)]
      exact zpow_le_one_of_nonpos₀ (by norm_num) (by norm_num)
    linarith
  obtain ⟨d, hd, hhalf⟩ := exists_value_eq_mul hm.significand_lt
    (e := (ofFloat x).exponent - 1) (by omega)
    (by have := exponent_le_of_isFinite hx; omega)
  refine ⟨d, hd, ?_⟩
  rw [hhalf, hvalue, Magnitude.value, zpow_sub_one₀ (by norm_num)]
  ring

namespace RoundsTo

/-- Above a normal double a number is at most one part in `2 ^ 53` greater. -/
theorem le_of_normal (hv : RoundsTo v x) (hx : x.isFinite = true) (h : 0 ≤ v)
    (hnormal : 2 ^ (-1022 : ℤ) ≤ value x) : v ≤ value x * (1 + 1 / 2 ^ 53) := by
  have hm := canonical_ofFloat x
  have hr := hv.rounds hx
  rw [abs_of_nonneg h] at hr
  rw [hv.value_of_nonneg hx h] at hnormal ⊢
  have hs : 2 ^ 52 ≤ (ofFloat x).significand := by
    by_contra hlt
    have he := hm.normal.resolve_left hlt
    have hless : ((ofFloat x).significand : ℚ) < 2 ^ 52 := by exact_mod_cast not_le.mp hlt
    have hvalue : (ofFloat x).value < 2 ^ 52 * 2 ^ (-1074 : ℤ) := by
      rw [Magnitude.value, he]
      exact mul_lt_mul_of_pos_right hless (zpow_pos (by norm_num) _)
    have hpower : (2 : ℚ) ^ 52 * 2 ^ (-1074 : ℤ) = 2 ^ (-1022 : ℤ) := by
      rw [← zpow_natCast, ← zpow_add₀ (by norm_num)]
      norm_num
    linarith
  have hdistance := (abs_le.mp (abs_sub_value_le_of_rounds hr)).2
  have hunit := unit_le_of_normal hs
  linarith

/-- Above any other double it is at most half the least unit greater. -/
theorem le_of_subnormal (hv : RoundsTo v x) (hx : x.isFinite = true) (h : 0 ≤ v)
    (hsmall : value x < 2 ^ (-1022 : ℤ)) : v ≤ value x + 2 ^ (-1074 : ℤ) / 2 := by
  have hm := canonical_ofFloat x
  have hr := hv.rounds hx
  rw [abs_of_nonneg h] at hr
  rw [hv.value_of_nonneg hx h] at hsmall ⊢
  have he : (ofFloat x).exponent = -1074 := by
    by_contra hne
    have hs := hm.normal.resolve_right hne
    have hunit := unit_le_of_normal hs
    have hpower : (2 : ℚ) ^ (-1073 : ℤ) ≤ 2 ^ (ofFloat x).exponent :=
      zpow_le_zpow_right₀ (by norm_num) (by have := hm.least_exponent; omega)
    have hscale : (2 : ℚ) ^ (-1022 : ℤ) ≤ 2 ^ 52 * 2 ^ (-1073 : ℤ) := by
      rw [← zpow_natCast, ← zpow_add₀ (by norm_num)]
      exact zpow_le_zpow_right₀ (by norm_num) (by norm_num)
    have hvalue : (2 : ℚ) ^ 52 * 2 ^ (ofFloat x).exponent ≤ (ofFloat x).value := by
      rw [le_div_iff₀ (by positivity)] at hunit
      linarith
    linarith [mul_le_mul_of_nonneg_left hpower (show (0 : ℚ) ≤ 2 ^ 52 by positivity)]
  have hdistance := (abs_le.mp (abs_sub_value_le_of_rounds hr)).2
  rw [he] at hdistance
  linarith

end RoundsTo

/-! ### The infinity -/

/-- A double that is neither finite nor NaN is an infinity with its sign. -/
theorem unpack_of_infinite (hnan : x.isNaN = false) (hx : x.isFinite = false) :
    x.toModel.unpack = .infinity (sign x) := by
  have hexponent : @unpackExponent .binary64 x.toBits.toBitVec = -1#11 := by
    by_contra hne
    have hb : biased x ≠ 2047 := fun hb =>
      hne (BitVec.toNat_inj.mp ((toNat_unpackExponent x).trans hb))
    rw [(Magnitude.isFinite_iff x).mpr hb] at hx
    cases hx
  change UnpackedFloat.unpack .binary64 x.toBits.toBitVec = _
  change (UnpackedFloat.unpack .binary64 x.toBits.toBitVec).isNaN = false at hnan
  simp only [UnpackedFloat.unpack] at hnan ⊢
  rw [if_pos hexponent] at hnan ⊢
  split
  · rw [ofBitVec_unpackSign]
  · next hmantissa =>
    rw [if_neg hmantissa] at hnan
    cases hnan

/-- The infinities share their magnitude, which no finite double has. -/
theorem ofFloat_of_infinite (hnan : x.isNaN = false) (hx : x.isFinite = false) :
    ofFloat x = ofFields 2047 0 := by
  have hb : biased x = 2047 := by
    by_contra hne
    rw [(Magnitude.isFinite_iff x).mpr hne] at hx
    cases hx
  have hexponent : @unpackExponent .binary64 x.toBits.toBitVec = -1#11 :=
    BitVec.toNat_inj.mp ((toNat_unpackExponent x).trans hb)
  have hf : fraction x = 0 := by
    by_contra hne
    have hmantissa : @unpackMantissa .binary64 x.toBits.toBitVec ≠ 0#52 := fun hz =>
      hne (by rw [← toNat_unpackMantissa, hz]; rfl)
    change (UnpackedFloat.unpack .binary64 x.toBits.toBitVec).isNaN = false at hnan
    simp only [UnpackedFloat.unpack] at hnan
    rw [if_pos hexponent, if_neg hmantissa] at hnan
    cases hnan
  rw [ofFloat_eq, hb, hf]

/-- There are two infinities, of opposite signs. -/
theorem eq_infinity (hnan : x.isNaN = false) (hx : x.isFinite = false) :
    x = if isNegative x then -infinity else infinity := by
  have hmagnitude := ofFloat_of_infinite hnan hx
  cases hneg : isNegative x with
  | true =>
    have hsign : isNegative (-infinity) = true := rfl
    have hopposite : ofFloat (-infinity) = ofFields 2047 0 := rfl
    exact eq_of_ofFloat (hneg.trans hsign.symm) (hmagnitude.trans hopposite.symm)
  | false =>
    have hsign : isNegative infinity = false := rfl
    have hsame : ofFloat infinity = ofFields 2047 0 := rfl
    exact eq_of_ofFloat (hneg.trans hsign.symm) (hmagnitude.trans hsame.symm)

/-- The positive infinity: neither finite nor NaN, and without a sign. -/
structure IsInfinity (x : Float) : Prop where
  /-- It is no NaN. -/
  isNaN_eq : x.isNaN = false
  /-- It is not finite. -/
  isFinite_eq : x.isFinite = false
  /-- It is not negative. -/
  sign_eq : sign x = .positive

/-- A positive number has a finite double or the infinity. -/
theorem RoundsTo.isInfinity (hv : RoundsTo v x) (h : 0 < v) (hx : ¬ x.isFinite = true) :
    IsInfinity x :=
  ⟨hv.isNaN_eq, by simpa using hx, hv.positive h⟩

namespace IsInfinity

/-- The unpacked infinity. -/
theorem unpack_eq (h : IsInfinity x) : x.toModel.unpack = .infinity .positive := by
  rw [unpack_of_infinite h.isNaN_eq h.isFinite_eq, h.sign_eq]

/-- Every finite double is below the infinity. -/
theorem lt_of_isFinite (h : IsInfinity x) (hy : y.isFinite = true) : y < x := by
  change decide ((y.toModel.unpack.compare x.toModel.unpack == some .lt) = true) = true
  rw [h.unpack_eq, unpack_of_isFinite hy, unpacked]
  split <;> cases sign y <;> rfl

/-- Nothing is above the infinity. -/
theorem not_lt (h : IsInfinity x) (y : Float) : ¬ x < y := by
  change ¬ decide ((x.toModel.unpack.compare y.toModel.unpack == some .lt) = true) = true
  rw [h.unpack_eq]
  cases y.toModel.unpack with
  | infinity s => cases s <;> simp [UnpackedFloat.compare]
  | notANumber => simp [UnpackedFloat.compare]
  | zero s => simp [UnpackedFloat.compare]
  | finite s m e hm => simp [UnpackedFloat.compare]

/-- The infinity absorbs finite summands. -/
theorem add (h : IsInfinity x) (hy : y.isFinite = true) : IsInfinity (x + y) := by
  have hsum : x + y = .ofModel (.pack (.infinity .positive)) := by
    change Float.ofModel (.pack (UnpackedFloat.add .binary64 x.toModel.unpack y.toModel.unpack)) = _
    rw [h.unpack_eq, unpack_of_isFinite hy, unpacked]
    split <;> rfl
  obtain ⟨hfinite, hnan, hsign⟩ := ofModel_pack_infinity .positive
  rw [hsum]
  exact ⟨hnan, hfinite, hsign⟩

end IsInfinity

end Double

end CurvePlot
