import CurvePlot.Number.Double
import CurvePlot.Proofs.Number.ReadBack
import Mathlib

/-!
# Doubles as rational numbers

A finite double is the rational number of its sign and its magnitude (`Double.value`). The
operations on doubles work on an unpacked form, which for a finite double is that sign and that
magnitude again (`Magnitude.unpack_eq`), and every magnitude of a double below the overflow is packed
without loss (`Magnitude.unpack_pack_unpacked`). Comparisons of finite doubles are those of the
numbers (`Double.le_iff`, `Double.lt_iff`, `Double.beq_iff`).
-/

namespace CurvePlot

open Float.Model (UnpackedFloat Format)
open Float.Model.UnpackedFloat (Sign unpackSign unpackExponent unpackMantissa packComponents)

namespace Magnitude

/-- A magnitude is not negative. -/
theorem value_nonneg (m : Magnitude) : 0 ≤ m.value := by
  unfold value
  positivity

/-- A magnitude without significand is zero. -/
theorem value_eq_zero {m : Magnitude} (h : m.significand = 0) : m.value = 0 := by
  simp [value, h]

/-- Any other magnitude is positive. -/
theorem value_pos {m : Magnitude} (h : m.significand ≠ 0) : 0 < m.value := by
  have : 0 < m.significand := Nat.pos_of_ne_zero h
  unfold value
  positivity

/-- Of two magnitudes of doubles, the one with the greater unit is the greater. -/
theorem value_lt_of_exponent_lt {m n : Magnitude} (hm : m.Canonical) (hn : n.Canonical)
    (h : m.exponent < n.exponent) : m.value < n.value := by
  have hleast := hm.least_exponent
  have hnormal : 2 ^ 52 ≤ n.significand := hn.normal.resolve_right (by omega)
  have hbelow : (m.significand : ℚ) < 2 ^ 53 := by exact_mod_cast hm.significand_lt
  have hunit : (0 : ℚ) < 2 ^ m.exponent := zpow_pos (by norm_num) _
  have hunits : (2 : ℚ) ^ (m.exponent + 1) ≤ 2 ^ n.exponent :=
    zpow_le_zpow_right₀ (by norm_num) (by omega)
  calc m.value < 2 ^ 53 * 2 ^ m.exponent := mul_lt_mul_of_pos_right hbelow hunit
    _ = 2 ^ 52 * 2 ^ (m.exponent + 1) := by rw [zpow_add_one₀ (by norm_num)]; ring
    _ ≤ 2 ^ 52 * 2 ^ n.exponent := mul_le_mul_of_nonneg_left hunits (by norm_num)
    _ ≤ n.value := by
      unfold value
      gcongr
      exact_mod_cast hnormal

/-- Magnitudes with one unit are in the order of their significands. -/
theorem value_lt_iff_of_exponent_eq {m n : Magnitude} (h : m.exponent = n.exponent) :
    m.value < n.value ↔ m.significand < n.significand := by
  have hunit : (0 : ℚ) < 2 ^ n.exponent := zpow_pos (by norm_num) _
  rw [value, value, h, mul_lt_mul_iff_left₀ hunit, Nat.cast_lt]

/-- Rounding keeps the order of two numbers. -/
theorem value_le_of_rounds {m n : Magnitude} {v w : ℚ} (hcm : m.Canonical) (hcn : n.Canonical)
    (hwv : w ≤ v) (hm : m.Rounds v) (hn : n.Rounds w) : n.value ≤ m.value := by
  rcases (exponent_le_of_rounds hcm hcn hwv hm hn).lt_or_eq with h | h
  · exact (value_lt_of_exponent_lt hcn hcm h).le
  · have hs := significand_le_of_rounds hcm hcn h hwv hm hn
    exact not_lt.mp fun hlt => absurd ((value_lt_iff_of_exponent_eq h.symm).mp hlt) (by omega)

/-- Magnitudes of doubles are compared by their units first. -/
theorem compare_eq {m n : Magnitude} (hm : m.Canonical) (hn : n.Canonical) :
    (compare m.exponent n.exponent).then (compare m.significand n.significand) =
      compare m.value n.value := by
  rcases lt_trichotomy m.exponent n.exponent with h | h | h
  · rw [compare_lt_iff_lt.mpr h, compare_lt_iff_lt.mpr (value_lt_of_exponent_lt hm hn h)]
    rfl
  · rw [compare_eq_iff_eq.mpr h, Ordering.eq_then]
    rcases lt_trichotomy m.significand n.significand with hs | hs | hs
    · rw [compare_lt_iff_lt.mpr hs, compare_lt_iff_lt.mpr ((value_lt_iff_of_exponent_eq h).mpr hs)]
    · rw [compare_eq_iff_eq.mpr hs, compare_eq_iff_eq.mpr (by rw [value, value, h, hs])]
    · rw [compare_gt_iff_gt.mpr hs,
        compare_gt_iff_gt.mpr ((value_lt_iff_of_exponent_eq h.symm).mpr hs)]
  · rw [compare_gt_iff_gt.mpr h, compare_gt_iff_gt.mpr (value_lt_of_exponent_lt hn hm h)]
    rfl

/-! ### Packing and unpacking -/

/-- The sign of a double. -/
def sign (x : Float) : Sign :=
  if isNegative x then .negative else .positive

/-- Doubles with one sign and one magnitude are the same. -/
theorem eq_of_sign {x y : Float} (hsign : sign x = sign y) (h : ofFloat x = ofFloat y) : x = y := by
  refine eq_of_ofFloat ?_ h
  unfold sign at hsign
  cases hx : isNegative x <;> cases hy : isNegative y <;> simp_all

/-- The unpacked double of a sign and a magnitude. -/
def unpacked (s : Sign) (m : Magnitude) : UnpackedFloat :=
  if h : m.significand = 0 then .zero s
  else .finite s m.significand m.exponent (Nat.pos_of_ne_zero h)

/-- Its opposite has the opposite sign and the same magnitude. -/
theorem neg_unpacked (s : Sign) (m : Magnitude) : (unpacked s m).neg = unpacked (-s) m := by
  unfold unpacked
  split <;> rfl

/-- Bits without the greatest exponent unpack into a sign and a magnitude. -/
theorem unpack_eq_unpacked (b : BitVec 64)
    (h : @unpackExponent .binary64 b ≠ -1#11) :
    UnpackedFloat.unpack .binary64 b =
      unpacked (Sign.ofBitVec (@unpackSign .binary64 b))
        (ofFields (@unpackExponent .binary64 b).toNat
          (@unpackMantissa .binary64 b).toNat) := by
  simp only [UnpackedFloat.unpack, unpacked, ofFields]
  rw [if_neg h]
  have hnormal : (1#1 ++ @unpackMantissa .binary64 b).toNat =
      2 ^ 52 + (@unpackMantissa .binary64 b).toNat := by
    rw [BitVec.toNat_append, ← Nat.shiftLeft_add_eq_or_of_lt (BitVec.isLt _)]
    rfl
  generalize @unpackExponent .binary64 b = e at h
  by_cases he : e = 0#11
  · by_cases hf : @unpackMantissa .binary64 b = 0#52
    · simp [he, hf]
    · have hpos : (@unpackMantissa .binary64 b).toNat ≠ 0 := fun hz =>
        hf (BitVec.toNat_inj.mp hz)
      simp [he, hf, hpos, Format.exponentBias]
  · have hpos : e.toNat ≠ 0 := fun hz => he (BitVec.toNat_inj.mp hz)
    simp [he, hpos, hnormal, Format.exponentBias]

/-- The lowest bits of a double are its fraction. -/
theorem toNat_unpackMantissa (x : Float) :
    (@unpackMantissa .binary64 x.toBits.toBitVec).toNat = fraction x := by
  simp [unpackMantissa, BitVec.extractLsb, fraction]

/-- The bits above are its biased exponent. -/
theorem toNat_unpackExponent (x : Float) :
    (@unpackExponent .binary64 x.toBits.toBitVec).toNat = biased x := by
  simp [unpackExponent, BitVec.extractLsb, biased, Nat.shiftRight_eq_div_pow]

/-- The highest bit is its sign. -/
theorem ofBitVec_unpackSign (x : Float) :
    Sign.ofBitVec (@unpackSign .binary64 x.toBits.toBitVec) = sign x := by
  have htop : (@unpackSign .binary64 x.toBits.toBitVec).toNat =
      x.toBits.toNat / 2 ^ 63 % 2 := by
    simp [unpackSign, BitVec.extractLsb, Nat.shiftRight_eq_div_pow]
  have hlt := x.toBits.toNat_lt
  have hneg := isNegative_iff x
  unfold Sign.ofBitVec sign
  by_cases h : isNegative x = true
  · have hone := hneg.mp h
    rw [if_pos h, if_neg]
    intro hzero
    rw [hzero] at htop
    simp at htop
    omega
  · have hzero : x.toBits.toNat / 2 ^ 63 ≠ 1 := fun hone => h (hneg.mpr hone)
    rw [if_neg h, if_pos]
    apply BitVec.eq_of_toNat_eq
    rw [htop]
    simp
    omega

/-- A double below the greatest biased exponent is its sign and its magnitude. -/
theorem unpack_eq {x : Float} (h : biased x ≠ 2047) :
    x.toModel.unpack = unpacked (sign x) (ofFloat x) := by
  have hexponent : @unpackExponent .binary64 x.toBits.toBitVec ≠ -1#11 := fun heq =>
    h (by rw [← toNat_unpackExponent x, heq]; rfl)
  change UnpackedFloat.unpack .binary64 x.toBits.toBitVec = _
  rw [unpack_eq_unpacked _ hexponent, ofBitVec_unpackSign, toNat_unpackExponent,
    toNat_unpackMantissa, ofFloat_eq]

/-- The greatest biased exponent marks the infinities and NaN. -/
theorem isFinite_iff (x : Float) : x.isFinite = true ↔ biased x ≠ 2047 := by
  change x.toModel.unpack.isFinite = true ↔ _
  constructor
  · intro h hb
    have hinf : @unpackExponent .binary64 x.toBits.toBitVec = -1#11 :=
      BitVec.toNat_inj.mp ((toNat_unpackExponent x).trans hb)
    change (UnpackedFloat.unpack .binary64 x.toBits.toBitVec).isFinite = true at h
    simp only [UnpackedFloat.unpack] at h
    rw [if_pos hinf] at h
    split at h <;> cases h
  · intro hb
    rw [unpack_eq hb, unpacked]
    split <;> rfl

/-- Packed fields are read back. -/
theorem unpack_packComponents (s : Sign) {e : BitVec 11} (he : e ≠ -1#11) (f : BitVec 52) :
    UnpackedFloat.unpack .binary64 (packComponents .binary64 s e f) =
      unpacked s (ofFields e.toNat f.toNat) := by
  have hsign := @UnpackedFloat.unpackSign_packComponents .binary64 s e f
  have hexponent := @UnpackedFloat.unpackExponent_packComponents .binary64 s e f
  have hmantissa := @UnpackedFloat.unpackMantissa_packComponents .binary64 s e f
  have h := unpack_eq_unpacked (packComponents .binary64 s e f) (hexponent.symm ▸ he)
  rw [hsign, Sign.ofBitVec_toBitVec, hexponent, hmantissa] at h
  exact h

/-- A magnitude of a double below the overflow is packed into two fields that make it. -/
theorem exists_fields (s : Sign) {m : Magnitude} (hm : m.Canonical) (he : m.exponent ≤ 971) :
    ∃ (e : BitVec 11) (f : BitVec 52), e ≠ -1#11 ∧ ofFields e.toNat f.toNat = m ∧
      UnpackedFloat.pack .binary64 (unpacked s m) = packComponents .binary64 s e f := by
  have hleast := hm.least_exponent
  have hbelow := hm.significand_lt
  by_cases hnormal : 2 ^ 52 ≤ m.significand
  · have hz : m.significand ≠ 0 := by omega
    have hlog : m.significand.log2 = 52 := (Nat.log2_eq_iff hz).mpr ⟨hnormal, hbelow⟩
    have hbiased : (BitVec.ofNat 11 (m.exponent + 1075).toNat).toNat =
        (m.exponent + 1075).toNat := by
      rw [BitVec.toNat_ofNat]
      omega
    have hfraction : (BitVec.ofNat 52 m.significand).toNat = m.significand - 2 ^ 52 := by
      rw [BitVec.toNat_ofNat]
      omega
    refine ⟨.ofNat 11 (m.exponent + 1075).toNat, .ofNat 52 m.significand, ?_, ?_, ?_⟩
    · intro h
      have hmax := congrArg BitVec.toNat h
      rw [hbiased] at hmax
      change _ = 2047 at hmax
      omega
    · apply eq_of_canonical (canonical_ofFields _ (by omega)) hm
      · rw [hbiased, hfraction, ofFields, if_neg (by omega)]
        dsimp only
        omega
      · rw [hbiased, ofFields, if_neg (by omega)]
        dsimp only
        omega
    · have hsum : m.exponent + 1023 + 52 = m.exponent + 1075 := by omega
      have hfits : ¬ 2047 ≤ (m.exponent + 1075).toNat := by omega
      simp [unpacked, hz, UnpackedFloat.pack, hlog, Format.exponentBias, Format.mantissaBits,
        hsum, hfits]
  · have hexp := hm.normal.resolve_left hnormal
    have hfraction : (BitVec.ofNat 52 m.significand).toNat = m.significand := by
      rw [BitVec.toNat_ofNat]
      omega
    refine ⟨0#11, .ofNat 52 m.significand, by decide, ?_, ?_⟩
    · exact eq_of_canonical (canonical_ofFields _ (by omega)) hm hfraction hexp.symm
    · unfold unpacked
      split
      · next hz =>
        rw [hz]
        rfl
      · next hz =>
        have hlog : m.significand.log2 < 52 := (Nat.log2_lt hz).mpr (by omega)
        simp [UnpackedFloat.pack, hexp, hlog.ne, Format.exponentBias, Format.mantissaBits]

/-- A sign and a magnitude below the overflow survive packing. -/
theorem unpack_pack_unpacked (s : Sign) {m : Magnitude} (hm : m.Canonical)
    (he : m.exponent ≤ 971) : (Float.Model.pack (unpacked s m)).unpack = unpacked s m := by
  obtain ⟨e, f, hmax, hfields, hpack⟩ := exists_fields s hm he
  change UnpackedFloat.unpack .binary64 (UnpackedFloat.pack .binary64 (unpacked s m)) = _
  rw [hpack, unpack_packComponents s hmax, hfields]

/-- A finite double unpacks into its sign and its magnitude. -/
theorem unpack_of_isFinite {x : Float} (h : x.isFinite = true) :
    x.toModel.unpack = unpacked (sign x) (ofFloat x) :=
  unpack_eq ((isFinite_iff x).mp h)

/-- The unpacked form determines sign and magnitude. -/
theorem unpacked_inj {s t : Sign} {m n : Magnitude} (hm : m.Canonical) (hn : n.Canonical)
    (h : unpacked s m = unpacked t n) : s = t ∧ m = n := by
  unfold unpacked at h
  split at h
  · next hzm =>
    split at h
    · next hzn =>
      have hme := hm.normal.resolve_left (by omega)
      have hne := hn.normal.resolve_left (by omega)
      exact ⟨UnpackedFloat.zero.inj h, eq_of_canonical hm hn (by omega) (by omega)⟩
    · cases h
  · split at h
    · cases h
    · obtain ⟨hsign, hs, he⟩ := UnpackedFloat.finite.inj h
      exact ⟨hsign, eq_of_canonical hm hn hs he⟩

/-- The double with a sign and a magnitude below the overflow. -/
theorem ofModel_pack_unpacked (s : Sign) {m : Magnitude} (hm : m.Canonical)
    (he : m.exponent ≤ 971) :
    (Float.ofModel (.pack (unpacked s m))).isFinite = true ∧
      sign (.ofModel (.pack (unpacked s m))) = s ∧
        ofFloat (.ofModel (.pack (unpacked s m))) = m := by
  have hunpack := unpack_pack_unpacked s hm he
  have hfinite : (Float.ofModel (.pack (unpacked s m))).isFinite = true := by
    change (Float.Model.pack (unpacked s m)).unpack.isFinite = true
    rw [hunpack, unpacked]
    split <;> rfl
  refine ⟨hfinite, ?_⟩
  have h := unpack_of_isFinite hfinite
  exact unpacked_inj (canonical_ofFloat _) hm (h.symm.trans hunpack)

/-! ### Comparisons -/

/-- A number with a sign in front. -/
def signed (s : Sign) (v : ℚ) : ℚ :=
  match s with
  | .negative => -v
  | .positive => v

/-- Negation turns a comparison around. -/
theorem compare_neg (a b : ℚ) : compare (-a) (-b) = (compare a b).swap := by
  rcases lt_trichotomy a b with h | h | h
  · rw [compare_lt_iff_lt.mpr h, compare_gt_iff_gt.mpr (neg_lt_neg h)]
    rfl
  · rw [compare_eq_iff_eq.mpr h, compare_eq_iff_eq.mpr (congrArg _ h)]
    rfl
  · rw [compare_gt_iff_gt.mpr h, compare_lt_iff_lt.mpr (neg_lt_neg h)]
    rfl

/-- Unpacked doubles are compared as the numbers that they are. -/
theorem compare_unpacked {m n : Magnitude} (hm : m.Canonical) (hn : n.Canonical) (s t : Sign) :
    (unpacked s m).compare (unpacked t n) = some (compare (signed s m.value) (signed t n.value)) := by
  by_cases hzm : m.significand = 0
  · have hvm := value_eq_zero hzm
    by_cases hzn : n.significand = 0
    · have hvn := value_eq_zero hzn
      cases s <;> cases t <;>
        simp [unpacked, signed, hzm, hzn, hvm, hvn, UnpackedFloat.compare]
    · have hvn := value_pos hzn
      have hlt : compare 0 n.value = .lt := compare_lt_iff_lt.mpr hvn
      have hgt : compare 0 (-n.value) = .gt := compare_gt_iff_gt.mpr (by linarith)
      cases s <;> cases t <;>
        simp [unpacked, signed, hzm, hzn, hvm, hlt, hgt, UnpackedFloat.compare]
  · have hvm := value_pos hzm
    have hgt : compare m.value 0 = .gt := compare_gt_iff_gt.mpr hvm
    have hlt : compare (-m.value) 0 = .lt := compare_lt_iff_lt.mpr (by linarith)
    by_cases hzn : n.significand = 0
    · have hvn := value_eq_zero hzn
      cases s <;> cases t <;>
        simp [unpacked, signed, hzm, hzn, hvn, hlt, hgt, UnpackedFloat.compare]
    · have hvn := value_pos hzn
      have hnp : compare (-m.value) n.value = .lt := compare_lt_iff_lt.mpr (by linarith)
      have hpn : compare m.value (-n.value) = .gt := compare_gt_iff_gt.mpr (by linarith)
      cases s <;> cases t <;>
        simp only [unpacked, signed, hzm, hzn, dif_neg, not_false_eq_true, UnpackedFloat.compare,
          compare_eq hm hn, compare_neg, hnp, hpn]

end Magnitude

namespace Double

open Magnitude

/-- The rational number that a finite double is. -/
def value (x : Float) : ℚ :=
  signed (sign x) (ofFloat x).value

/-- Finite doubles are compared as the numbers that they are. -/
theorem compare_unpack {x y : Float} (hx : x.isFinite = true) (hy : y.isFinite = true) :
    x.toModel.unpack.compare y.toModel.unpack = some (compare (value x) (value y)) := by
  rw [unpack_of_isFinite hx, unpack_of_isFinite hy]
  exact compare_unpacked (canonical_ofFloat x) (canonical_ofFloat y) _ _

/-- The order of finite doubles is that of the numbers. -/
theorem le_iff {x y : Float} (hx : x.isFinite = true) (hy : y.isFinite = true) :
    x ≤ y ↔ value x ≤ value y := by
  change decide ((x.toModel.unpack.compare y.toModel.unpack).any Ordering.isLE = true) = true ↔ _
  rw [compare_unpack hx hy, decide_eq_true_iff, Option.any_some, ← compare_le_iff_le,
    Ordering.isLE_iff_ne_gt]

/-- So is the strict order. -/
theorem lt_iff {x y : Float} (hx : x.isFinite = true) (hy : y.isFinite = true) :
    x < y ↔ value x < value y := by
  change decide ((x.toModel.unpack.compare y.toModel.unpack == some .lt) = true) = true ↔ _
  rw [compare_unpack hx hy, decide_eq_true_iff, beq_iff_eq, Option.some.injEq, compare_lt_iff_lt]

/-- Finite doubles are equal, up to the sign of a zero, just if the numbers are. -/
theorem beq_iff {x y : Float} (hx : x.isFinite = true) (hy : y.isFinite = true) :
    (x == y) = true ↔ value x = value y := by
  change (x.toModel.unpack.compare y.toModel.unpack == some .eq) = true ↔ _
  rw [compare_unpack hx hy, beq_iff_eq, Option.some.injEq, compare_eq_iff_eq]

end Double

end CurvePlot
