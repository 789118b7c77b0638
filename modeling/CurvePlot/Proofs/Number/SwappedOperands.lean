import CurvePlot.Proofs.Number.NegatedOperands

/-!
# Swapped operands of a difference

The difference of two doubles in the other order is the opposite, or both differences are the
positive zero (`Double.sub_swap`). A quotient keeps its value when both of its operands get a minus
(`Double.opposite_div_opposite`). Infinities and NaN are included.
-/

namespace CurvePlot

open Float.Model (UnpackedFloat)
open Float.Model.UnpackedFloat

/-! ### Unpacked doubles -/

namespace Rounding

/-- The sign of an integer is that of what it rounds to. -/
theorem normalize_neg {z : ℤ} (hz : z ≠ 0) (e : ℤ) (s : Sign) :
    UnpackedFloat.normalize .binary64 (-z) e s = (UnpackedFloat.normalize .binary64 z e s).neg := by
  have hround : ∀ (t : Sign) (m : ℕ),
      UnpackedFloat.round .binary64 (-t) m e = (UnpackedFloat.round .binary64 t m e).neg :=
    fun t m => roundWithAccuracy_neg t _ _ _
  unfold UnpackedFloat.normalize
  rcases lt_or_gt_of_ne hz with h | h
  · rw [compare_lt_iff_lt.mpr h, compare_gt_iff_gt.mpr (by omega)]
    exact hround .negative _
  · rw [compare_gt_iff_gt.mpr h, compare_lt_iff_lt.mpr (by omega), neg_neg]
    exact hround .positive _

/-- The difference in the other order is the opposite, or both are the positive zero. -/
theorem sub_swap (u w : UnpackedFloat) :
    sub .binary64 w u = (sub .binary64 u w).neg ∨
      sub .binary64 u w = .zero .positive ∧ sub .binary64 w u = .zero .positive := by
  cases u with
  | notANumber => cases w <;> exact Or.inl rfl
  | infinity s =>
    cases w with
    | infinity t => cases s <;> cases t <;> exact Or.inl rfl
    | _ => exact Or.inl rfl
  | zero s =>
    cases w with
    | zero t => cases s <;> cases t <;> first | exact Or.inl rfl | exact Or.inr ⟨rfl, rfl⟩
    | infinity t => exact Or.inl (congrArg UnpackedFloat.infinity (neg_neg_sign t).symm)
    | finite t m e hm =>
      refine Or.inl ?_
      simp only [sub, UnpackedFloat.neg, neg_neg_sign]
    | notANumber => exact Or.inl rfl
  | finite s m e hm =>
    cases w with
    | zero t => exact Or.inl rfl
    | infinity t => exact Or.inl (congrArg UnpackedFloat.infinity (neg_neg_sign t).symm)
    | finite t n f hn =>
      -- Both orders bring the significands to the lower exponent; the integers are opposite.
      simp only [sub, min_comm f e]
      set a := s.apply (decreaseExponent m e (min e f)).1
      set b := t.apply (decreaseExponent n f (min e f)).1
      by_cases hz : a - b = 0
      · have hz' : b - a = 0 := by omega
        rw [hz, hz']
        exact Or.inr ⟨rfl, rfl⟩
      · rw [← neg_sub a b]
        exact Or.inl (normalize_neg hz _ _)
    | notANumber => exact Or.inl rfl

/-- The minus of a divisor is that of the quotient. -/
theorem div_neg_right (u w : UnpackedFloat) :
    div .binary64 u w.neg = (div .binary64 u w).neg := by
  have hsign : ∀ s t : Sign, s / -t = -(s / t) := by
    intro s t
    cases s <;> cases t <;> rfl
  cases u <;> cases w <;>
    simp only [div, UnpackedFloat.neg, hsign, roundWithAccuracy_neg]

end Rounding

/-! ### Doubles -/

namespace Double

variable {x y : Float}

/-- What is not finite is an infinity or NaN, and is packed as such. -/
theorem unpack_pack_of_not_isFinite {u : UnpackedFloat} (hu : u.isFinite = false) :
    (Float.Model.pack u).unpack = u := by
  cases u with
  | notANumber => rfl
  | infinity s => cases s <;> rfl
  | zero s => cases hu
  | finite s m e hm => cases hu

/-- The opposite of any double unpacks into the opposite. -/
theorem unpack_opposite (x : Float) : (-x).toModel.unpack = x.toModel.unpack.neg := by
  cases hx : x.isFinite with
  | true => exact unpack_neg hx
  | false =>
    have hneg : x.toModel.unpack.neg.isFinite = false := by
      have hu : x.toModel.unpack.isFinite = false := hx
      cases hm : x.toModel.unpack <;> rw [hm] at hu <;> first | rfl | cases hu
    exact unpack_pack_of_not_isFinite hneg

/-- The difference of two doubles has the opposite that it unpacks into. -/
theorem pack_neg_unpack_sub (x y : Float) :
    Float.Model.pack (x - y).toModel.unpack.neg =
      .pack (sub .binary64 x.toModel.unpack y.toModel.unpack).neg := by
  change Float.Model.pack
    (Float.Model.pack (sub .binary64 x.toModel.unpack y.toModel.unpack)).unpack.neg = _
  cases h : (sub .binary64 x.toModel.unpack y.toModel.unpack).isFinite with
  | true =>
    obtain ⟨hx, hy⟩ := isFinite_of_isFinite_sub h
    have hrounded := Rounding.rounded_sub (Magnitude.sign x) (Magnitude.sign y)
      (Magnitude.canonical_ofFloat x) (Magnitude.canonical_ofFloat y)
    rw [← Magnitude.unpack_of_isFinite hx, ← Magnitude.unpack_of_isFinite hy] at hrounded
    exact hrounded.pack_neg_unpack
  | false => rw [unpack_pack_of_not_isFinite h]

/-- The difference in the other order is the opposite, or both are zero. -/
theorem sub_swap (x y : Float) : y - x = -(x - y) ∨ x - y = 0 ∧ y - x = 0 := by
  have hzero : Float.ofModel (.pack (.zero .positive)) = 0 := rfl
  have hpack := pack_neg_unpack_sub x y
  rcases Rounding.sub_swap x.toModel.unpack y.toModel.unpack with h | ⟨h, h'⟩
  · refine Or.inl ?_
    change Float.ofModel (.pack (sub .binary64 y.toModel.unpack x.toModel.unpack)) =
      .ofModel (.pack (x - y).toModel.unpack.neg)
    rw [h, hpack]
  · refine Or.inr ⟨?_, ?_⟩
    · rw [← hzero, ← h]
      rfl
    · rw [← hzero, ← h']
      rfl

/-- A quotient is the same when both operands get a minus. -/
theorem opposite_opposite_div (x y : Float) : - -x / -y = -x / y := by
  change Float.ofModel (.pack (div .binary64 (- -x).toModel.unpack (-y).toModel.unpack)) =
    .ofModel (.pack (div .binary64 (-x).toModel.unpack y.toModel.unpack))
  rw [unpack_opposite, unpack_opposite, unpack_opposite, Rounding.neg_neg_unpacked,
    Rounding.div_neg_right, Rounding.div_neg_left]

/-- The opposite of a double is zero when the double is. -/
theorem beq_zero_opposite (x : Float) : (-x == 0) = (x == 0) := by
  change UnpackedFloat.beq (-x).toModel.unpack (0 : Float).toModel.unpack =
    UnpackedFloat.beq x.toModel.unpack (0 : Float).toModel.unpack
  have hzero : (0 : Float).toModel.unpack = .zero .positive := rfl
  rw [unpack_opposite, hzero]
  cases x.toModel.unpack with
  | infinity s => cases s <;> rfl
  | notANumber => rfl
  | zero s => rfl
  | finite s m e hm => cases s <;> rfl

/-- A zero of either sign, with the positive zero added, is the positive zero. -/
theorem pack_zero_add_zero (s : Sign) : Float.ofModel (.pack (.zero s)) + 0 = 0 := by
  cases s <;> rfl

/-- Zero divided by a double, with the positive zero added, does not see a minus of the divisor. -/
theorem zero_div_opposite_add_zero (y : Float) : -0 / -y + 0 = -0 / y + 0 := by
  have hzero : (-0 : Float).toModel.unpack = .zero .negative := rfl
  change Float.ofModel (.pack (div .binary64 (-0 : Float).toModel.unpack (-y).toModel.unpack)) + 0 =
    .ofModel (.pack (div .binary64 (-0 : Float).toModel.unpack y.toModel.unpack)) + 0
  rw [hzero, unpack_opposite]
  cases y.toModel.unpack with
  | notANumber => rfl
  | zero s => rfl
  | infinity _ | finite _ _ _ _ =>
    exact (pack_zero_add_zero _).trans (pack_zero_add_zero _).symm

end Double

end CurvePlot
