import CurvePlot.Proofs.Number.Rounding

/-!
# Arithmetic on doubles

A sum, difference, product or quotient of finite doubles is the double that the exact result rounds to
(`Double.RoundsTo`). Two consequences carry most arguments: rounding keeps the order of numbers
(`Double.RoundsTo.value_le`), so that a result between two doubles stays between them
(`Double.RoundsTo.between`); and a result that a double has is that double (`Double.RoundsTo.value_eq`),
as it is for integers of at most 53 binary digits.
-/

namespace CurvePlot

open Float.Model (UnpackedFloat)
open Float.Model.UnpackedFloat

namespace Magnitude

/-- Half way between the greatest double and the next number that 53 binary digits could write: from
here on numbers round to an infinity. -/
def overflow : ℚ :=
  (2 ^ 54 - 1) * 2 ^ (970 : ℤ)

/-- Numbers below the overflow, and only those, round to a magnitude that a double has room for. -/
theorem exponent_le_iff_of_rounds {n : Magnitude} {v : ℚ} (hn : n.Canonical) (h : n.Rounds v) :
    n.exponent ≤ 971 ↔ v < overflow := by
  have hbelow := hn.significand_lt
  have hunit : (0 : ℚ) < 2 ^ n.exponent := zpow_pos (by norm_num) _
  constructor
  · intro he
    have hle : (2 : ℚ) ^ n.exponent ≤ 2 * 2 ^ (970 : ℤ) := by
      rw [← zpow_one_add₀ (by norm_num)]
      exact zpow_le_zpow_right₀ (by norm_num) (by omega)
    have hhigh : 4 * v < ((2 ^ 55 - 2 : ℕ) : ℚ) * 2 ^ n.exponent := by
      rcases Nat.lt_or_ge n.significand (2 ^ 53 - 1) with hs | hs
      · have hend : n.highEnd < 2 ^ 55 - 2 := by
          unfold highEnd
          omega
        exact h.2.1.trans_lt (mul_lt_mul_of_pos_right (by exact_mod_cast hend) hunit)
      · have hend : n.highEnd = 2 ^ 55 - 2 := by
          unfold highEnd
          omega
        exact hend ▸ (h.2.2 (by omega)).2
    push_cast at hhigh
    unfold overflow
    generalize (2 : ℚ) ^ (970 : ℤ) = unit at *
    linarith
  · intro hv
    by_contra he
    have hle : (4 : ℚ) * 2 ^ (970 : ℤ) ≤ 2 ^ n.exponent := by
      rw [show (4 : ℚ) = 2 ^ (2 : ℤ) by norm_num, ← zpow_add₀ (by norm_num)]
      exact zpow_le_zpow_right₀ (by norm_num) (by omega)
    have hnormal : 2 ^ 52 ≤ n.significand := hn.normal.resolve_right (by omega)
    have hlow : ((2 ^ 54 - 1 : ℕ) : ℚ) ≤ n.lowEnd := by
      have : 2 ^ 54 - 1 ≤ n.lowEnd := by
        unfold lowEnd
        split
        · omega
        · next hwide =>
          have : n.significand ≠ 2 ^ 52 := fun hs =>
            hwide (hn.narrowBelow_iff.mpr ⟨hs, by omega⟩)
          omega
      exact_mod_cast this
    have hlowEnd := h.1
    unfold overflow at hv
    generalize (2 : ℚ) ^ (970 : ℤ) = unit at *
    have hends := mul_le_mul_of_nonneg_right hlow hunit.le
    push_cast at hends
    linarith

/-- A number of at most 53 binary digits is the magnitude of a double. -/
theorem exists_canonical (k : ℕ) {s : ℕ} (hs : s < 2 ^ 53) :
    ∃ m : Magnitude, m.Canonical ∧ m.exponent ≤ -1074 + k ∧ m.value = s * 2 ^ (-1074 + k : ℤ) := by
  induction k generalizing s with
  | zero => exact ⟨ofParts s (-1074), canonical_ofParts hs le_rfl (Or.inr rfl), le_rfl, rfl⟩
  | succ k ih =>
    rcases Nat.lt_or_ge s (2 ^ 52) with hsmall | hlarge
    · obtain ⟨m, hm, he, hv⟩ := ih (s := 2 * s) (by omega)
      refine ⟨m, hm, by push_cast; omega, ?_⟩
      rw [hv, Nat.cast_succ, ← add_assoc, zpow_add_one₀ (by norm_num)]
      push_cast
      ring
    · exact ⟨ofParts s (-1074 + (k + 1 : ℕ)), canonical_ofParts hs (by omega) (Or.inl hlarge),
        le_rfl, rfl⟩

end Magnitude

namespace Double

open Magnitude

/-- The double is the one that the number rounds to. -/
structure RoundsTo (v : ℚ) (x : Float) : Prop where
  /-- It is a number or an infinity. -/
  isNaN_eq : x.isNaN = false
  /-- It is finite just below the overflow. -/
  isFinite_iff : x.isFinite = true ↔ |v| < overflow
  /-- If finite it has the nearest magnitude. -/
  rounds : x.isFinite = true → (ofFloat x).Rounds |v|
  /-- The sign of a negative number is kept, even by a zero. -/
  negative : v < 0 → sign x = .negative
  /-- So is that of a positive one. -/
  positive : 0 < v → sign x = .positive

/-- The infinity with a sign. -/
theorem ofModel_pack_infinity (s : Sign) :
    (Float.ofModel (.pack (.infinity s))).isFinite = false ∧
      (Float.ofModel (.pack (.infinity s))).isNaN = false ∧
        sign (.ofModel (.pack (.infinity s))) = s := by
  cases s <;> exact ⟨rfl, rfl, rfl⟩

/-- A magnitude beyond the greatest double is packed as an infinity. -/
theorem pack_unpacked_of_overflow (s : Sign) {n : Magnitude} (hn : n.Canonical)
    (he : 971 < n.exponent) : Float.Model.pack (unpacked s n) = .pack (.infinity s) := by
  have hz : n.significand ≠ 0 := by
    have := hn.normal.resolve_right (by omega)
    omega
  have hpack : UnpackedFloat.pack .binary64 (unpacked s n) = packedInfinity .binary64 s := by
    have hbiased : 2 ^ 11 ≤ (n.exponent + 1023 + 52).toNat + 1 := by omega
    simp only [unpacked, hz, dif_neg, not_false_eq_true, UnpackedFloat.pack]
    exact if_pos hbiased
  simp only [Float.Model.pack, hpack]
  rfl

/-- An unpacked double that was rounded correctly is packed without a further change. -/
theorem roundsTo_pack {v : ℚ} {u : UnpackedFloat} (h : Rounding.Rounded v u) :
    RoundsTo v (.ofModel (.pack u)) := by
  obtain ⟨s, n, rfl, hn, hr, hneg, hpos⟩ := h
  have hroom := exponent_le_iff_of_rounds hn hr
  by_cases he : n.exponent ≤ 971
  · obtain ⟨hfinite, hsign, hmagnitude⟩ := ofModel_pack_unpacked s hn he
    exact ⟨(isNaN_isInf_of_isFinite hfinite).1, by simp [hfinite, hroom.mp he],
      fun _ => hmagnitude.symm ▸ hr, fun h => hsign.trans (hneg h), fun h => hsign.trans (hpos h)⟩
  · obtain ⟨hfinite, hnan, hsign⟩ := ofModel_pack_infinity s
    rw [pack_unpacked_of_overflow s hn (by omega)]
    exact ⟨hnan, by simp [hfinite, not_lt.mp (mt hroom.mpr he)], fun h => by simp [hfinite] at h,
      fun h => hsign.trans (hneg h), fun h => hsign.trans (hpos h)⟩

variable {v w : ℚ} {x y : Float}

/-- The size of a double. -/
theorem abs_value (x : Float) : |value x| = (ofFloat x).value := by
  unfold value
  cases sign x
  · exact (abs_neg _).trans (abs_of_nonneg (value_nonneg _))
  · exact abs_of_nonneg (value_nonneg _)

/-- The exponent of a finite double is below the overflow. -/
theorem exponent_le_of_isFinite (hx : x.isFinite = true) : (ofFloat x).exponent ≤ 971 := by
  have hb : biased x < 2 ^ 11 := Nat.mod_lt _ (by norm_num)
  have hmax := (Magnitude.isFinite_iff x).mp hx
  rw [ofFloat_eq, ofFields]
  split
  · norm_num
  · dsimp only
    omega

/-- A finite double rounds to itself. -/
theorem roundsTo_value (hx : x.isFinite = true) : RoundsTo (value x) x := by
  have hr := rounds_self (canonical_ofFloat x)
  have hroom := exponent_le_of_isFinite hx
  have hlt := (exponent_le_iff_of_rounds (canonical_ofFloat x) hr).mp hroom
  refine ⟨(isNaN_isInf_of_isFinite hx).1, by simp [hx, abs_value, hlt], fun _ => ?_, fun h => ?_,
    fun h => ?_⟩
  · rwa [abs_value]
  · unfold value at h
    cases hs : sign x
    · rfl
    · rw [hs, signed] at h
      exact absurd h (not_lt.mpr (value_nonneg _))
  · unfold value at h
    cases hs : sign x
    · rw [hs, signed] at h
      linarith [value_nonneg (ofFloat x)]
    · rfl

/-- Sums are correctly rounded. -/
theorem roundsTo_add (hx : x.isFinite = true) (hy : y.isFinite = true) :
    RoundsTo (value x + value y) (x + y) := by
  have h := Rounding.rounded_add (sign x) (sign y) (canonical_ofFloat x) (canonical_ofFloat y)
  rw [← unpack_of_isFinite hx, ← unpack_of_isFinite hy] at h
  exact roundsTo_pack h

/-- Differences are correctly rounded. -/
theorem roundsTo_sub (hx : x.isFinite = true) (hy : y.isFinite = true) :
    RoundsTo (value x - value y) (x - y) := by
  have h := Rounding.rounded_sub (sign x) (sign y) (canonical_ofFloat x) (canonical_ofFloat y)
  rw [← unpack_of_isFinite hx, ← unpack_of_isFinite hy] at h
  exact roundsTo_pack h

/-- Products are correctly rounded. -/
theorem roundsTo_mul (hx : x.isFinite = true) (hy : y.isFinite = true) :
    RoundsTo (value x * value y) (x * y) := by
  have h := Rounding.rounded_mul (sign x) (sign y) (canonical_ofFloat x) (canonical_ofFloat y)
  rw [← unpack_of_isFinite hx, ← unpack_of_isFinite hy] at h
  exact roundsTo_pack h

/-- Quotients by anything but zero are correctly rounded. -/
theorem roundsTo_div (hx : x.isFinite = true) (hy : y.isFinite = true) (hne : value y ≠ 0) :
    RoundsTo (value x / value y) (x / y) := by
  have hz : (ofFloat y).significand ≠ 0 := fun hz => hne (by
    rw [value, value_eq_zero hz, Rounding.signed_zero])
  have h := Rounding.rounded_div (sign x) (sign y) (m := ofFloat x) hz
  rw [← unpack_of_isFinite hx, ← unpack_of_isFinite hy] at h
  exact roundsTo_pack h

/-- Whole numbers of 32 bits are correctly rounded. -/
theorem roundsTo_uint32 (n : UInt32) : RoundsTo n.toNat n.toFloat := by
  have h := Rounding.rounded_normalize n.toNat 0 .positive
  rw [zpow_zero, mul_one] at h
  exact roundsTo_pack h

/-! ### What follows from correct rounding -/

namespace RoundsTo

/-- A number that is not greater in size than one with a finite double has a finite double. -/
theorem isFinite_of_abs_le (hv : RoundsTo v x) (hw : RoundsTo w y) (h : |v| ≤ |w|)
    (hy : y.isFinite = true) : x.isFinite = true :=
  hv.isFinite_iff.mpr (h.trans_lt (hw.isFinite_iff.mp hy))

/-- Zero rounds to a zero. -/
theorem value_zero (h : RoundsTo 0 x) (hx : x.isFinite = true) : (ofFloat x).value = 0 := by
  apply value_eq_zero
  by_contra hz
  have hpos := pos_of_rounds (Nat.pos_of_ne_zero hz) (h.rounds hx)
  rw [abs_zero] at hpos
  exact lt_irrefl 0 hpos

/-- The double of a number that is not negative is not negative. -/
theorem value_of_nonneg (hv : RoundsTo v x) (hx : x.isFinite = true) (h : 0 ≤ v) :
    value x = (ofFloat x).value := by
  rcases h.lt_or_eq with hpos | rfl
  · rw [value, hv.positive hpos, signed]
  · rw [value, hv.value_zero hx, Rounding.signed_zero]

/-- So its value is not negative. -/
theorem zero_le_value (hv : RoundsTo v x) (hx : x.isFinite = true) (h : 0 ≤ v) : 0 ≤ value x :=
  hv.value_of_nonneg hx h ▸ value_nonneg _

/-- The double of a number that is not positive is not positive. -/
theorem value_of_nonpos (hv : RoundsTo v x) (hx : x.isFinite = true) (h : v ≤ 0) :
    value x = -(ofFloat x).value := by
  rcases h.lt_or_eq with hneg | rfl
  · rw [value, hv.negative hneg, signed]
  · rw [value, hv.value_zero hx, Rounding.signed_zero, neg_zero]

/-- Rounding keeps the order of two numbers. -/
theorem value_le (hv : RoundsTo v x) (hw : RoundsTo w y) (h : v ≤ w) (hx : x.isFinite = true)
    (hy : y.isFinite = true) : value x ≤ value y := by
  have hcx := canonical_ofFloat x
  have hcy := canonical_ofFloat y
  have hrx := hv.rounds hx
  have hry := hw.rounds hy
  rcases le_total 0 v with hv0 | hv0
  · rw [abs_of_nonneg hv0] at hrx
    rw [abs_of_nonneg (hv0.trans h)] at hry
    rw [hv.value_of_nonneg hx hv0, hw.value_of_nonneg hy (hv0.trans h)]
    exact value_le_of_rounds hcy hcx h hry hrx
  · rw [hv.value_of_nonpos hx hv0]
    rcases le_total 0 w with hw0 | hw0
    · rw [hw.value_of_nonneg hy hw0]
      linarith [value_nonneg (ofFloat x), value_nonneg (ofFloat y)]
    · rw [hw.value_of_nonpos hy hw0]
      rw [abs_of_nonpos hv0] at hrx
      rw [abs_of_nonpos hw0] at hry
      exact neg_le_neg (value_le_of_rounds hcx hcy (neg_le_neg h) hrx hry)

/-- A number between two doubles rounds to a double between them. -/
theorem between {l u : Float} (hv : RoundsTo v x) (hl : l.isFinite = true) (hu : u.isFinite = true)
    (hlv : value l ≤ v) (hvu : v ≤ value u) :
    x.isFinite = true ∧ value l ≤ value x ∧ value x ≤ value u := by
  have hfinite : x.isFinite = true := by
    rcases le_max_iff.mp (abs_le_max_abs_abs hlv hvu) with h | h
    · exact hv.isFinite_of_abs_le (roundsTo_value hl) h hl
    · exact hv.isFinite_of_abs_le (roundsTo_value hu) h hu
  exact ⟨hfinite, (roundsTo_value hl).value_le hv hlv hl hfinite,
    hv.value_le (roundsTo_value hu) hvu hfinite hu⟩

/-- A number that a double has rounds to it. -/
theorem value_eq (hv : RoundsTo v x) {d : Float} (hd : d.isFinite = true) (h : value d = v) :
    x.isFinite = true ∧ value x = v := by
  obtain ⟨hx, hle, hge⟩ := hv.between hd hd h.le h.ge
  exact ⟨hx, h ▸ le_antisymm hge hle⟩

end RoundsTo

/-! ### Exact results -/

/-- Every integer of at most 53 binary digits is a double. -/
theorem exists_value_eq {z : ℤ} (hz : z.natAbs < 2 ^ 53) :
    ∃ d : Float, d.isFinite = true ∧ value d = z := by
  obtain ⟨m, hm, he, hv⟩ := exists_canonical 1074 hz
  have hvalue : m.value = (z.natAbs : ℚ) := by simpa using hv
  rcases le_total 0 z with h | h
  · obtain ⟨hfinite, hsign, hmagnitude⟩ := ofModel_pack_unpacked .positive hm (by omega)
    refine ⟨_, hfinite, ?_⟩
    rw [value, hsign, hmagnitude, hvalue, signed]
    rw [Nat.cast_natAbs, abs_of_nonneg h]
  · obtain ⟨hfinite, hsign, hmagnitude⟩ := ofModel_pack_unpacked .negative hm (by omega)
    refine ⟨_, hfinite, ?_⟩
    rw [value, hsign, hmagnitude, hvalue, signed]
    rw [Nat.cast_natAbs, abs_of_nonpos h, Int.cast_neg, neg_neg]

/-- An integer of at most 53 binary digits is not rounded. -/
theorem RoundsTo.value_eq_int {z : ℤ} (h : RoundsTo z x) (hz : z.natAbs < 2 ^ 53) :
    x.isFinite = true ∧ value x = z := by
  obtain ⟨d, hd, hv⟩ := exists_value_eq hz
  exact h.value_eq hd hv

/-- A whole number of 32 bits is a double. -/
theorem value_uint32 (n : UInt32) : n.toFloat.isFinite = true ∧ value n.toFloat = n.toNat := by
  have hlt := n.toNat_lt
  exact (roundsTo_uint32 n).value_eq_int (z := n.toNat) (by omega)

/-- The double zero. -/
theorem value_zero : (0 : Float).isFinite = true ∧ value 0 = 0 := by
  have hmagnitude : ofFloat 0 = ⟨0, -1074, false⟩ := rfl
  refine ⟨rfl, ?_⟩
  rw [value, hmagnitude, value_eq_zero rfl, Rounding.signed_zero]

/-- The double one. -/
theorem value_one : (1 : Float).isFinite = true ∧ value 1 = 1 := by
  have hmagnitude : ofFloat 1 = ⟨2 ^ 52, -52, true⟩ := rfl
  have hsign : sign 1 = .positive := rfl
  refine ⟨rfl, ?_⟩
  rw [value, hmagnitude, hsign, signed]
  norm_num [Magnitude.value]

/-- The double two. -/
theorem value_two : (2 : Float).isFinite = true ∧ value 2 = 2 := by
  have hmagnitude : ofFloat 2 = ⟨2 ^ 52, -51, true⟩ := rfl
  have hsign : sign 2 = .positive := rfl
  refine ⟨rfl, ?_⟩
  rw [value, hmagnitude, hsign, signed]
  norm_num [Magnitude.value]

/-- The size of a finite double is a double. -/
theorem value_abs (hx : x.isFinite = true) : x.abs.isFinite = true ∧ value x.abs = |value x| := by
  have habs : x.abs = .ofModel (.pack (unpacked .positive (ofFloat x))) := by
    change Float.ofModel (.pack x.toModel.unpack.abs) = _
    rw [unpack_of_isFinite hx]
    unfold unpacked
    split <;> rfl
  obtain ⟨hfinite, hsign, hmagnitude⟩ :=
    ofModel_pack_unpacked .positive (canonical_ofFloat x) (exponent_le_of_isFinite hx)
  rw [habs]
  exact ⟨hfinite, by rw [value, hsign, hmagnitude, signed, abs_value]⟩

/-- A minus sign changes the sign alone. -/
theorem sign_neg (hx : x.isFinite = true) :
    (-x).isFinite = true ∧ sign (-x) = -sign x ∧ ofFloat (-x) = ofFloat x := by
  have hneg : -x = .ofModel (.pack (unpacked (-sign x) (ofFloat x))) := by
    change Float.ofModel (.pack x.toModel.unpack.neg) = _
    rw [unpack_of_isFinite hx, neg_unpacked]
  rw [hneg]
  exact ofModel_pack_unpacked (-sign x) (canonical_ofFloat x) (exponent_le_of_isFinite hx)

/-- So the opposite of a finite double is a double. -/
theorem value_neg (hx : x.isFinite = true) : (-x).isFinite = true ∧ value (-x) = -value x := by
  obtain ⟨hfinite, hsign, hmagnitude⟩ := sign_neg hx
  refine ⟨hfinite, ?_⟩
  rw [value, hsign, hmagnitude, value]
  cases sign x
  · exact (neg_neg _).symm
  · rfl

/-- Packing makes no finite double of an infinity or NaN. -/
theorem isFinite_of_pack {u : UnpackedFloat} (h : (Float.ofModel (.pack u)).isFinite = true) :
    u.isFinite = true := by
  cases u with
  | infinity s => exact absurd h (by simp [(ofModel_pack_infinity s).1])
  | notANumber => cases h
  | zero s => rfl
  | finite s m e hm => rfl

/-- A finite difference has finite operands, before it is packed. -/
theorem isFinite_of_isFinite_sub
    (hsub : (sub .binary64 x.toModel.unpack y.toModel.unpack).isFinite = true) :
    x.isFinite = true ∧ y.isFinite = true := by
  change x.toModel.unpack.isFinite = true ∧ y.toModel.unpack.isFinite = true
  cases hx : x.toModel.unpack <;> cases hy : y.toModel.unpack <;> rw [hx, hy] at hsub <;>
    simp only [sub] at hsub <;> first
      | exact ⟨rfl, rfl⟩
      | cases hsub
      | (split at hsub <;> cases hsub)

/-- A finite difference has finite operands. -/
theorem isFinite_of_sub (h : (x - y).isFinite = true) : x.isFinite = true ∧ y.isFinite = true :=
  isFinite_of_isFinite_sub (isFinite_of_pack h)

/-- A finite sum has finite summands. -/
theorem isFinite_of_add (h : (x + y).isFinite = true) : x.isFinite = true ∧ y.isFinite = true := by
  have hsum : (add .binary64 x.toModel.unpack y.toModel.unpack).isFinite = true := isFinite_of_pack h
  change x.toModel.unpack.isFinite = true ∧ y.toModel.unpack.isFinite = true
  cases hx : x.toModel.unpack <;> cases hy : y.toModel.unpack <;> rw [hx, hy] at hsum <;>
    simp only [add] at hsum <;> first
      | exact ⟨rfl, rfl⟩
      | cases hsum
      | (split at hsum <;> cases hsum)

/-- A finite product has finite factors. -/
theorem isFinite_of_mul (h : (x * y).isFinite = true) : x.isFinite = true ∧ y.isFinite = true := by
  have hproduct : (mul .binary64 x.toModel.unpack y.toModel.unpack).isFinite = true :=
    isFinite_of_pack h
  change x.toModel.unpack.isFinite = true ∧ y.toModel.unpack.isFinite = true
  cases hx : x.toModel.unpack <;> cases hy : y.toModel.unpack <;> rw [hx, hy] at hproduct <;>
    first
      | exact ⟨rfl, rfl⟩
      | cases hproduct

/-- A sum with zero is the other summand in number; a negative zero loses its sign. -/
theorem beq_zero_add (hx : x.isFinite = true) : (x == 0 + x) = true := by
  have hsum := roundsTo_add value_zero.1 hx
  rw [value_zero.2, zero_add] at hsum
  obtain ⟨hfinite, hvalue⟩ := hsum.value_eq hx rfl
  exact (beq_iff hx hfinite).mpr hvalue.symm

/-- The lesser of two finite doubles. -/
theorem value_lesser (hx : x.isFinite = true) (hy : y.isFinite = true) :
    (lesser x y).isFinite = true ∧ value (lesser x y) = min (value x) (value y) := by
  rw [lesser, (isNaN_isInf_of_isFinite hx).1, Bool.or_false]
  by_cases h : y < x
  · rw [if_pos (decide_eq_true h), min_eq_right ((lt_iff hy hx).mp h).le]
    exact ⟨hy, rfl⟩
  · rw [if_neg (by simpa using h), min_eq_left (not_lt.mp (mt (lt_iff hy hx).mpr h))]
    exact ⟨hx, rfl⟩

/-- The greater of two finite doubles. -/
theorem value_greater (hx : x.isFinite = true) (hy : y.isFinite = true) :
    (greater x y).isFinite = true ∧ value (greater x y) = max (value x) (value y) := by
  rw [greater, (isNaN_isInf_of_isFinite hx).1, Bool.or_false]
  by_cases h : x < y
  · rw [if_pos (decide_eq_true h), max_eq_right ((lt_iff hx hy).mp h).le]
    exact ⟨hy, rfl⟩
  · rw [if_neg (by simpa using h), max_eq_left (not_lt.mp (mt (lt_iff hx hy).mpr h))]
    exact ⟨hx, rfl⟩

end Double

end CurvePlot
