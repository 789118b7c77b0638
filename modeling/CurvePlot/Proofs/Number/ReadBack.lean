import CurvePlot.Number.Shortest
import Mathlib.Algebra.Order.Field.Power
import Mathlib.Tactic.LinearCombination
import Mathlib.Tactic.Linarith
import Mathlib.Tactic.NormNum
import Mathlib.Tactic.Positivity
import Mathlib.Tactic.FieldSimp
import Mathlib.Tactic.Ring

/-!
# Decimals that read back name one double

The reals that round to a double form an interval around it. The intervals of two doubles do not
meet, since the shared end of two neighbours belongs to the one with the even significand. The
shortest decimal of a double lies in its interval, so that two doubles with the same shortest
decimal are the same (`Double.eq_of_decimal_value_eq`).
-/

namespace CurvePlot

/-- The rational number that a numeral writes. -/
def Numeral.value (n : Numeral) : ℚ :=
  n.significand * (10 : ℚ) ^ n.exponent

namespace Magnitude

/-- The rational number that a magnitude stands for. -/
def value (m : Magnitude) : ℚ :=
  m.significand * (2 : ℚ) ^ m.exponent

/-- The magnitudes of doubles: a significand of 53 binary digits at most, and of fewer only at the
least exponent. The gap below is half the gap above just at the powers of two beyond that. -/
structure Canonical (m : Magnitude) : Prop where
  /-- The significand has at most 53 binary digits. -/
  significand_lt : m.significand < 2 ^ 53
  /-- There is a least exponent. -/
  least_exponent : -1074 ≤ m.exponent
  /-- A shorter significand has the least exponent. -/
  normal : 2 ^ 52 ≤ m.significand ∨ m.exponent = -1074
  /-- The gaps differ just at the powers of two. -/
  narrowBelow_iff : m.narrowBelow = true ↔ m.significand = 2 ^ 52 ∧ -1074 < m.exponent

/-- Four times the lower end of the rounding interval, in units of the last place. -/
def lowEnd (m : Magnitude) : ℕ :=
  if m.narrowBelow then 4 * m.significand - 1 else 4 * m.significand - 2

/-- Four times the upper end of the rounding interval, in units of the last place. -/
def highEnd (m : Magnitude) : ℕ :=
  4 * m.significand + 2

/-- Whether a rational number rounds to the magnitude: it lies between the two ends, and on an end
only if the significand is even. -/
def Rounds (m : Magnitude) (v : ℚ) : Prop :=
  m.lowEnd * (2 : ℚ) ^ m.exponent ≤ 4 * v ∧ 4 * v ≤ m.highEnd * (2 : ℚ) ^ m.exponent ∧
    (m.significand % 2 = 1 →
      m.lowEnd * (2 : ℚ) ^ m.exponent < 4 * v ∧ 4 * v < m.highEnd * (2 : ℚ) ^ m.exponent)

/-- A positive magnitude rounds to itself. -/
theorem rounds_value {m : Magnitude} (h : 0 < m.significand) : m.Rounds m.value := by
  have hu : (0 : ℚ) < 2 ^ m.exponent := zpow_pos (by norm_num) _
  have hl : (m.lowEnd : ℚ) < 4 * m.significand := by
    have hn : m.lowEnd < 4 * m.significand := by unfold lowEnd; split <;> omega
    exact_mod_cast hn
  have hh : (4 * m.significand : ℚ) < m.highEnd := by
    have hn : 4 * m.significand < m.highEnd := by unfold highEnd; omega
    exact_mod_cast hn
  have hlow := mul_lt_mul_of_pos_right hl hu
  have hhigh := mul_lt_mul_of_pos_right hh hu
  unfold Rounds value
  rw [← mul_assoc]
  exact ⟨hlow.le, hhigh.le, fun _ => ⟨hlow, hhigh⟩⟩

/-- Only positive numbers round to a positive magnitude. -/
theorem pos_of_rounds {m : Magnitude} {v : ℚ} (h : 0 < m.significand) (hv : m.Rounds v) :
    0 < v := by
  have hu : (0 : ℚ) < 2 ^ m.exponent := zpow_pos (by norm_num) _
  have hl : (0 : ℚ) < m.lowEnd := by
    have hn : 0 < m.lowEnd := by unfold lowEnd; split <;> omega
    exact_mod_cast hn
  have := mul_pos hl hu
  linarith [hv.1]

/-- When a number rounds to a magnitude, and a number that is not greater to one with the greater unit
by `2 ^ k`, the lower end of the second does not exceed the upper end of the first; and if it
reaches it, both significands are even. -/
theorem ends_of_rounds {m n : Magnitude} {v w : ℚ} {k : ℕ} (he : n.exponent = m.exponent + k)
    (hwv : w ≤ v) (hm : m.Rounds v) (hn : n.Rounds w) :
    n.lowEnd * 2 ^ k ≤ m.highEnd ∧
      (n.lowEnd * 2 ^ k = m.highEnd → m.significand % 2 = 0 ∧ n.significand % 2 = 0) := by
  have hu : (0 : ℚ) < 2 ^ m.exponent := zpow_pos (by norm_num) _
  have hunit : (2 : ℚ) ^ n.exponent = 2 ^ k * 2 ^ m.exponent := by
    rw [he, zpow_add₀ (by norm_num), zpow_natCast, mul_comm]
  have hlow : ((n.lowEnd * 2 ^ k : ℕ) : ℚ) * 2 ^ m.exponent = n.lowEnd * 2 ^ n.exponent := by
    rw [hunit]; push_cast; ring
  constructor
  · have h : ((n.lowEnd * 2 ^ k : ℕ) : ℚ) * 2 ^ m.exponent ≤ m.highEnd * 2 ^ m.exponent := by
      rw [hlow]; linarith [hn.1, hm.2.1]
    exact_mod_cast le_of_mul_le_mul_right h hu
  · intro heq
    have hends : (n.lowEnd : ℚ) * 2 ^ n.exponent = m.highEnd * 2 ^ m.exponent := by
      rw [← hlow, heq]
    have hmv := hm.2.1
    have hnv := hn.1
    constructor
    · by_contra hodd
      have := (hm.2.2 (by omega)).2
      linarith
    · by_contra hodd
      have := (hn.2.2 (by omega)).1
      linarith

/-- A number that is not greater does not round to a magnitude with a greater unit. -/
theorem exponent_le_of_rounds {m n : Magnitude} {v w : ℚ} (hcm : m.Canonical) (hcn : n.Canonical)
    (hwv : w ≤ v) (hm : m.Rounds v) (hn : n.Rounds w) : n.exponent ≤ m.exponent := by
  by_contra hlt
  obtain ⟨k, hk⟩ : ∃ k : ℕ, n.exponent = m.exponent + ((k + 1 : ℕ) : ℤ) :=
    ⟨(n.exponent - m.exponent - 1).toNat, by push_cast; omega⟩
  obtain ⟨hle, heven⟩ := ends_of_rounds hk hwv hm hn
  have hleast := hcm.least_exponent
  have hbelow := hcm.significand_lt
  have hnormal : 2 ^ 52 ≤ n.significand := hcn.normal.resolve_right (by omega)
  have hdouble : n.lowEnd * 2 ≤ n.lowEnd * 2 ^ (k + 1) :=
    Nat.mul_le_mul_left _ (by rw [pow_succ]; have := Nat.one_le_two_pow (n := k); omega)
  have hhigh : m.highEnd = 4 * m.significand + 2 := rfl
  -- Only just above a power of two may the two intervals share an end.
  by_cases hnarrow : n.narrowBelow = true
  · have hs := (hcn.narrowBelow_iff.mp hnarrow).1
    have hlow : n.lowEnd = 4 * n.significand - 1 := if_pos hnarrow
    have hend : n.lowEnd * 2 ^ (k + 1) = m.highEnd := by omega
    have := (heven hend).1
    omega
  · have hs : n.significand ≠ 2 ^ 52 := fun hs =>
      hnarrow (hcn.narrowBelow_iff.mpr ⟨hs, by omega⟩)
    have hlow : n.lowEnd = 4 * n.significand - 2 := if_neg hnarrow
    omega

/-- Within one unit, a number that is not greater does not round to a greater magnitude. -/
theorem significand_le_of_rounds {m n : Magnitude} {v w : ℚ} (hcm : m.Canonical)
    (hcn : n.Canonical) (he : n.exponent = m.exponent) (hwv : w ≤ v) (hm : m.Rounds v)
    (hn : n.Rounds w) : n.significand ≤ m.significand := by
  by_contra hlt
  obtain ⟨hle, heven⟩ := ends_of_rounds (k := 0) (by simpa using he) hwv hm hn
  have hhigh : m.highEnd = 4 * m.significand + 2 := rfl
  by_cases hnarrow : n.narrowBelow = true
  · have hs := hcn.narrowBelow_iff.mp hnarrow
    have := hcm.normal.resolve_right (by omega)
    omega
  · have hlow : n.lowEnd = 4 * n.significand - 2 := if_neg hnarrow
    have := heven (by omega)
    omega

/-- Of a magnitude of a double, the significand and the exponent are all. -/
theorem eq_of_canonical {m n : Magnitude} (hcm : m.Canonical) (hcn : n.Canonical)
    (hs : m.significand = n.significand) (he : m.exponent = n.exponent) : m = n := by
  have hnarrow : m.narrowBelow = n.narrowBelow := by
    rw [Bool.eq_iff_iff, hcm.narrowBelow_iff, hcn.narrowBelow_iff, he, hs]
  cases m
  cases n
  simp_all

/-- No number rounds to two magnitudes. -/
theorem eq_of_rounds {m n : Magnitude} {v : ℚ} (hcm : m.Canonical) (hcn : n.Canonical)
    (hm : m.Rounds v) (hn : n.Rounds v) : m = n := by
  have he : m.exponent = n.exponent :=
    le_antisymm (exponent_le_of_rounds hcn hcm le_rfl hn hm)
      (exponent_le_of_rounds hcm hcn le_rfl hm hn)
  have hs : m.significand = n.significand :=
    le_antisymm (significand_le_of_rounds hcn hcm he le_rfl hn hm)
      (significand_le_of_rounds hcm hcn he.symm le_rfl hm hn)
  exact eq_of_canonical hcm hcn hs he

end Magnitude

namespace Shortest

open Magnitude

/-- The two scaled units stand to each other as the unit of the double to the distance of the grid
points. -/
theorem scaled_unit_eq (m : Magnitude) (place : ℤ) :
    ((scaled m place).unit : ℚ) * 10 ^ place = (scaled m place).grid * 2 ^ m.exponent := by
  have h2 : (2 : ℚ) ^ (-m.exponent).toNat * 2 ^ m.exponent = 2 ^ m.exponent.toNat := by
    rw [← zpow_natCast, ← zpow_natCast, ← zpow_add₀ (by norm_num)]
    congr 1
    omega
  have h10 : (10 : ℚ) ^ (-place).toNat * 10 ^ place = 10 ^ place.toNat := by
    rw [← zpow_natCast, ← zpow_natCast, ← zpow_add₀ (by norm_num)]
    congr 1
    omega
  simp only [scaled, Nat.pow_eq]
  push_cast
  calc (2 : ℚ) ^ m.exponent.toNat * 10 ^ (-place).toNat * 10 ^ place
      = 2 ^ m.exponent.toNat * (10 ^ (-place).toNat * 10 ^ place) := by ring
    _ = 2 ^ (-m.exponent).toNat * 2 ^ m.exponent * 10 ^ place.toNat := by rw [h10, h2]
    _ = 2 ^ (-m.exponent).toNat * 10 ^ place.toNat * 2 ^ m.exponent := by ring

/-- Comparisons on the scaled grid are those of the numbers themselves. -/
theorem mul_unit_le_iff (m : Magnitude) (place : ℤ) (a b : ℕ) :
    (a * (scaled m place).unit ≤ b * (scaled m place).grid ↔
        (a : ℚ) * 2 ^ m.exponent ≤ b * 10 ^ place) ∧
      (b * (scaled m place).grid ≤ a * (scaled m place).unit ↔
        (b : ℚ) * 10 ^ place ≤ a * 2 ^ m.exponent) := by
  have hgrid : (0 : ℚ) < (scaled m place).grid := by
    have : 0 < (scaled m place).grid := by simp only [scaled, Nat.pow_eq]; positivity
    exact_mod_cast this
  have hplace : (0 : ℚ) < 10 ^ place := zpow_pos (by norm_num) _
  have hunit := scaled_unit_eq m place
  have hleft : ((a * (scaled m place).unit : ℕ) : ℚ) * 10 ^ place =
      a * 2 ^ m.exponent * (scaled m place).grid := by
    push_cast
    linear_combination (a : ℚ) * hunit
  have hright : ((b * (scaled m place).grid : ℕ) : ℚ) * 10 ^ place =
      b * 10 ^ place * (scaled m place).grid := by
    push_cast
    ring
  constructor
  · rw [← Nat.cast_le (α := ℚ), ← mul_le_mul_iff_left₀ hplace, hleft, hright,
      mul_le_mul_iff_left₀ hgrid]
  · rw [← Nat.cast_le (α := ℚ), ← mul_le_mul_iff_left₀ hplace, hleft, hright,
      mul_le_mul_iff_left₀ hgrid]

/-- A grid point that reads back rounds to the magnitude. -/
theorem rounds_of_readsBack {m : Magnitude} {place : ℤ} {point : ℕ}
    (h : readsBack m (scaled m place) point = true) :
    m.Rounds (Numeral.value ⟨point, place⟩) := by
  have hlow := mul_unit_le_iff m place m.lowEnd (4 * point)
  have hhigh := mul_unit_le_iff m place m.highEnd (4 * point)
  have hvalue : ((4 * point : ℕ) : ℚ) * 10 ^ place = 4 * Numeral.value ⟨point, place⟩ := by
    simp only [Numeral.value]
    push_cast
    ring
  rw [hvalue] at hlow hhigh
  simp only [readsBack] at h
  rw [show 4 * (point * (scaled m place).grid) = 4 * point * (scaled m place).grid by ring] at h
  change (if m.significand % 2 == 0 then
      decide (m.lowEnd * (scaled m place).unit ≤ 4 * point * (scaled m place).grid) &&
        decide (4 * point * (scaled m place).grid ≤ m.highEnd * (scaled m place).unit)
    else
      decide (m.lowEnd * (scaled m place).unit < 4 * point * (scaled m place).grid) &&
        decide (4 * point * (scaled m place).grid < m.highEnd * (scaled m place).unit)) = true at h
  split at h
  · next heven =>
    simp only [Bool.and_eq_true, decide_eq_true_eq, hlow.1, hhigh.2] at h
    refine ⟨h.1, h.2, fun hodd => ?_⟩
    simp only [beq_iff_eq] at heven
    omega
  · simp only [Bool.and_eq_true, decide_eq_true_eq] at h
    have hl := not_le.mp fun hle => absurd (hlow.2.mpr hle) (not_le.mpr h.1)
    have hh := not_le.mp fun hle => absurd (hhigh.1.mpr hle) (not_le.mpr h.2)
    exact ⟨hl.le, hh.le, fun _ => ⟨hl, hh⟩⟩

/-- Trailing zeros carry no value. -/
theorem value_strip (n : Numeral) : (strip n).value = n.value := by
  fun_induction strip n with
  | case1 n h ih =>
    have hdigit : ((n.significand / 10 : ℕ) : ℚ) * 10 = n.significand := by
      exact_mod_cast Nat.div_mul_cancel (Nat.dvd_of_mod_eq_zero h.2)
    rw [ih]
    simp only [Numeral.value]
    rw [zpow_add_one₀ (by norm_num), ← hdigit]
    ring
  | case2 n h => rfl

/-- The exact decimal has the value of the magnitude. -/
theorem value_exact (m : Magnitude) : (exact m).value = m.value := by
  unfold exact
  split
  · next h =>
    obtain ⟨k, hk⟩ := Int.eq_ofNat_of_zero_le h
    simp [Numeral.value, Magnitude.value, hk]
  · next h =>
    obtain ⟨k, hk⟩ : ∃ k : ℕ, m.exponent = -(k : ℤ) := ⟨(-m.exponent).toNat, by omega⟩
    simp only [Numeral.value, Magnitude.value, hk, neg_neg, Int.toNat_natCast, zpow_neg,
      zpow_natCast, Nat.pow_eq]
    push_cast
    rw [show (10 : ℚ) = 5 * 2 by norm_num, mul_pow]
    field_simp

/-- The shortest decimal of a positive magnitude rounds to it. -/
theorem rounds_decimal (tie : Tie) {m : Magnitude} (h : 0 < m.significand) :
    m.Rounds (decimal tie m).value := by
  have hz : ¬(m.significand == 0) = true := by simpa using Nat.ne_of_gt h
  unfold decimal
  rw [if_neg hz]
  simp only [value_strip]
  cases hf : (List.range 17).findSome? fun i : ℕ =>
      (onGrid? tie m (width m - (i + 1))).map fun point =>
        (⟨point, width m - (i + 1)⟩ : Numeral) with
  | none =>
    rw [Option.getD_none, value_exact]
    exact rounds_value h
  | some n =>
    obtain ⟨i, -, hi⟩ := List.exists_of_findSome?_eq_some hf
    obtain ⟨point, hp, rfl⟩ := Option.map_eq_some_iff.mp hi
    exact rounds_of_readsBack (readsBack_of_onGrid? hp)

/-- The shortest decimal of zero is zero. -/
theorem value_decimal_of_zero (tie : Tie) {m : Magnitude} (h : m.significand = 0) :
    (decimal tie m).value = 0 := by
  simp [decimal, h, Numeral.value]

/-- The shortest decimal of zero is the digit zero. -/
theorem exponent_decimal_of_zero (tie : Tie) (m : Magnitude)
    (h : (decimal tie m).significand = 0) : (decimal tie m).exponent = 0 := by
  by_cases hz : m.significand = 0
  · simp [decimal, hz]
  · have hpos := Magnitude.pos_of_rounds (Nat.pos_of_ne_zero hz)
      (rounds_decimal tie (Nat.pos_of_ne_zero hz))
    rw [Numeral.value, h, Nat.cast_zero, zero_mul] at hpos
    exact absurd hpos (lt_irrefl 0)

/-- Two magnitudes of doubles with shortest decimals of one value are the same. -/
theorem eq_of_value_decimal {tie : Tie} {m n : Magnitude} (hm : m.Canonical) (hn : n.Canonical)
    (h : (decimal tie m).value = (decimal tie n).value) : m = n := by
  rcases Nat.eq_zero_or_pos m.significand with hm0 | hm0
  · rcases Nat.eq_zero_or_pos n.significand with hn0 | hn0
    · have hme := hm.normal.resolve_left (by omega)
      have hne := hn.normal.resolve_left (by omega)
      exact eq_of_canonical hm hn (by omega) (by omega)
    · rw [value_decimal_of_zero tie hm0] at h
      exact absurd h (pos_of_rounds hn0 (rounds_decimal tie hn0)).ne
  · rcases Nat.eq_zero_or_pos n.significand with hn0 | hn0
    · rw [value_decimal_of_zero tie hn0] at h
      exact absurd h (pos_of_rounds hm0 (rounds_decimal tie hm0)).ne'
    · exact eq_of_rounds hm hn (rounds_decimal tie hm0) (h ▸ rounds_decimal tie hn0)

end Shortest

namespace Magnitude

/-- The biased exponent in the bits of a double. -/
def biased (x : Float) : ℕ :=
  x.toBits.toNat / 2 ^ 52 % 2 ^ 11

/-- The fraction in the bits of a double. -/
def fraction (x : Float) : ℕ :=
  x.toBits.toNat % 2 ^ 52

/-- The magnitude with a biased exponent and a fraction. -/
def ofFields (biased fraction : ℕ) : Magnitude :=
  if biased = 0 then ⟨fraction, -1074, false⟩
  else ⟨2 ^ 52 + fraction, (biased : ℤ) - 1075, fraction == 0 && decide (1 < biased)⟩

/-- The magnitude in terms of the two fields below the sign. -/
theorem ofFloat_eq (x : Float) : ofFloat x = ofFields (biased x) (fraction x) := by
  have hb : ((x.toBits >>> 52) &&& 0x7FF).toNat = biased x := by
    rw [UInt64.toNat_and, UInt64.toNat_shiftRight]
    exact (Nat.and_two_pow_sub_one_eq_mod _ 11).trans
      (congrArg (· % 2 ^ 11) (Nat.shiftRight_eq_div_pow _ 52))
  have hf : (x.toBits &&& 0xFFFFFFFFFFFFF).toNat = fraction x := by
    rw [UInt64.toNat_and]
    exact Nat.and_two_pow_sub_one_eq_mod _ 52
  simp only [ofFloat, ofFields, hb, hf, beq_iff_eq]
  norm_num

/-- The sign bit is the highest of the 64. -/
theorem isNegative_iff (x : Float) : isNegative x = true ↔ x.toBits.toNat / 2 ^ 63 = 1 := by
  have h : (x.toBits >>> 63).toNat = x.toBits.toNat / 2 ^ 63 := by
    rw [UInt64.toNat_shiftRight]
    exact Nat.shiftRight_eq_div_pow _ 63
  rw [← h, isNegative, beq_iff_eq, ← UInt64.toNat_inj]
  rfl

/-- Fields of a double make the magnitude of one. -/
theorem canonical_ofFields (b : ℕ) {f : ℕ} (hf : f < 2 ^ 52) : (ofFields b f).Canonical := by
  unfold ofFields
  split
  · exact ⟨by dsimp only; omega, by norm_num, Or.inr rfl, by simp⟩
  · refine ⟨by dsimp only; omega, by dsimp only; omega, Or.inl (by dsimp only; omega), ?_⟩
    simp only [Bool.and_eq_true, beq_iff_eq, decide_eq_true_eq]
    omega

/-- Every double has the magnitude of one. -/
theorem canonical_ofFloat (x : Float) : (ofFloat x).Canonical :=
  ofFloat_eq x ▸ canonical_ofFields _ (Nat.mod_lt _ (by norm_num))

/-- Doubles with the same bits are the same. -/
theorem float_ext {x y : Float} (h : x.toBits = y.toBits) : x = y := by
  obtain ⟨⟨_, _⟩⟩ := x
  obtain ⟨⟨_, _⟩⟩ := y
  cases h
  rfl

/-- A double is its sign and its magnitude. -/
theorem eq_of_ofFloat {x y : Float} (hsign : isNegative x = isNegative y)
    (h : ofFloat x = ofFloat y) : x = y := by
  have hfx : fraction x < 2 ^ 52 := Nat.mod_lt _ (by norm_num)
  have hfy : fraction y < 2 ^ 52 := Nat.mod_lt _ (by norm_num)
  have hfields : biased x = biased y ∧ fraction x = fraction y := by
    rw [ofFloat_eq, ofFloat_eq, ofFields, ofFields] at h
    split at h <;> split at h <;> rw [Magnitude.mk.injEq] at h <;> omega
  rw [Bool.eq_iff_iff, isNegative_iff, isNegative_iff] at hsign
  have hx := x.toBits.toNat_lt
  have hy := y.toBits.toNat_lt
  unfold biased fraction at hfields
  exact float_ext (UInt64.toNat_inj.mp (by omega))

end Magnitude

/-- A finite double is no NaN and no infinity. -/
theorem Double.isNaN_isInf_of_isFinite {x : Float} (h : x.isFinite = true) :
    x.isNaN = false ∧ x.isInf = false := by
  change x.toModel.unpack.isFinite = true at h
  change x.toModel.unpack.isNaN = false ∧ x.toModel.unpack.isInf = false
  cases hu : x.toModel.unpack <;> rw [hu] at h <;> first | exact ⟨rfl, rfl⟩ | cases h

/-- Doubles of one sign with shortest decimals of one value are the same. -/
theorem Double.eq_of_decimal_value_eq {tie : Shortest.Tie} {x y : Float}
    (hsign : Magnitude.isNegative x = Magnitude.isNegative y)
    (h : (Shortest.decimal tie (.ofFloat x)).value = (Shortest.decimal tie (.ofFloat y)).value) :
    x = y :=
  Magnitude.eq_of_ofFloat hsign
    (Shortest.eq_of_value_decimal (Magnitude.canonical_ofFloat x) (Magnitude.canonical_ofFloat y) h)

end CurvePlot
