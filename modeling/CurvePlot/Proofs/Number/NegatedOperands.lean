import CurvePlot.Proofs.Number.Arithmetic

/-!
# Minus signs of operands

Of finite doubles only the sign changes when a minus is put in front, and rounding to nearest does
not depend on the sign. So a minus in front of an operand may be moved, without a change of any bit:
into the operator of a sum or a difference, or in front of a product or a quotient. The signs of
zeros and of results beyond the greatest double are included.

The laws hold for unpacked doubles of every kind. That they hold for doubles is a matter of packing:
what was rounded has the same opposite before and after it is packed
(`Rounding.Rounded.pack_neg_unpack`).
-/

namespace CurvePlot

open Float.Model (UnpackedFloat)
open Float.Model.UnpackedFloat

/-! ### Unpacked doubles -/

namespace Rounding

open Magnitude (unpacked)

/-- Two opposites are none. -/
theorem neg_neg_sign (s : Sign) : - -s = s := by
  cases s <;> rfl

/-- Two opposites of an unpacked double are none. -/
theorem neg_neg_unpacked (u : UnpackedFloat) : u.neg.neg = u := by
  cases u <;> simp only [UnpackedFloat.neg, neg_neg_sign]

/-- Rounding does not depend on the sign. -/
theorem roundWithAccuracy_neg (s : Sign) (m : ℕ) (e : ℤ) (accuracy : Accuracy) :
    roundWithAccuracy .binary64 (-s) m e accuracy =
      (roundWithAccuracy .binary64 s m e accuracy).neg := by
  unfold roundWithAccuracy
  dsimp only
  split <;> rfl

/-- The minus of a factor is that of the product. -/
theorem mul_neg_left (u w : UnpackedFloat) :
    mul .binary64 u.neg w = (mul .binary64 u w).neg := by
  have hsign : ∀ s t : Sign, -s * t = -(s * t) := by
    intro s t
    cases s <;> cases t <;> rfl
  cases u <;> cases w <;>
    simp only [mul, UnpackedFloat.neg, hsign, roundWithAccuracy_neg]

/-- The minus of a dividend is that of the quotient. -/
theorem div_neg_left (u w : UnpackedFloat) :
    div .binary64 u.neg w = (div .binary64 u w).neg := by
  have hsign : ∀ s t : Sign, -s / t = -(s / t) := by
    intro s t
    cases s <;> cases t <;> rfl
  cases u <;> cases w <;>
    simp only [div, UnpackedFloat.neg, hsign, roundWithAccuracy_neg]

/-- Packing keeps the opposite of what was rounded. -/
theorem Rounded.pack_neg_unpack {v : ℚ} {u : UnpackedFloat} (h : Rounded v u) :
    Float.Model.pack (Float.Model.pack u).unpack.neg = .pack u.neg := by
  obtain ⟨s, n, rfl, hn, -, -, -⟩ := h
  by_cases he : n.exponent ≤ 971
  · rw [Magnitude.unpack_pack_unpacked s hn he]
  · rw [Magnitude.neg_unpacked, Double.pack_unpacked_of_overflow s hn (by omega),
      Double.pack_unpacked_of_overflow (-s) hn (by omega)]
    cases s <;> rfl

end Rounding

/-! ### Doubles -/

namespace Double

open Magnitude (ofFloat canonical_ofFloat unpack_of_isFinite unpack_pack_unpacked)

variable {x y : Float}

/-- The opposite unpacks into the opposite. -/
theorem unpack_neg (hx : x.isFinite = true) : (-x).toModel.unpack = x.toModel.unpack.neg := by
  change (Float.Model.pack x.toModel.unpack.neg).unpack = _
  rw [unpack_of_isFinite hx, Magnitude.neg_unpacked]
  exact unpack_pack_unpacked _ (canonical_ofFloat x) (exponent_le_of_isFinite hx)

/-- A finite double is what it unpacks into. -/
theorem ofModel_pack_unpack (hx : x.isFinite = true) : .ofModel (.pack x.toModel.unpack) = x := by
  obtain ⟨-, hsign, hmagnitude⟩ := Magnitude.ofModel_pack_unpacked (Magnitude.sign x)
    (canonical_ofFloat x) (exponent_le_of_isFinite hx)
  rw [unpack_of_isFinite hx]
  exact Magnitude.eq_of_sign hsign hmagnitude

/-- Two minus signs are none. -/
theorem opposite_opposite (hx : x.isFinite = true) : - -x = x := by
  change Float.ofModel (.pack (-x).toModel.unpack.neg) = x
  rw [unpack_neg hx, Rounding.neg_neg_unpacked, ofModel_pack_unpack hx]

/-- A finite double has a finite opposite. -/
theorem isFinite_neg (hx : x.isFinite = true) : (-x).isFinite = true :=
  (value_neg hx).1

/-- No other double has one. -/
theorem isFinite_of_neg (h : (-x).isFinite = true) : x.isFinite = true := by
  have hneg : x.toModel.unpack.neg.isFinite = true := isFinite_of_pack h
  change x.toModel.unpack.isFinite = true
  cases hu : x.toModel.unpack <;> rw [hu] at hneg <;> first | rfl | cases hneg

/-- A summand with a minus is taken off. -/
theorem add_opposite (hx : x.isFinite = true) (hy : y.isFinite = true) : x + -y = x - y := by
  change Float.ofModel (.pack (add .binary64 x.toModel.unpack (-y).toModel.unpack)) =
    .ofModel (.pack (sub .binary64 x.toModel.unpack y.toModel.unpack))
  rw [unpack_neg hy, unpack_of_isFinite hx, unpack_of_isFinite hy, Magnitude.neg_unpacked,
    Rounding.sub_eq_add]

/-- Taking off what has a minus is adding. -/
theorem sub_opposite (hx : x.isFinite = true) (hy : y.isFinite = true) : x - -y = x + y := by
  rw [← add_opposite hx (isFinite_neg hy), opposite_opposite hy]

/-- The minus of a factor is that of the product. -/
theorem opposite_mul (hx : x.isFinite = true) (hy : y.isFinite = true) : -x * y = -(x * y) := by
  have hrounded := Rounding.rounded_mul (Magnitude.sign x) (Magnitude.sign y) (canonical_ofFloat x)
    (canonical_ofFloat y)
  rw [← unpack_of_isFinite hx, ← unpack_of_isFinite hy] at hrounded
  change Float.ofModel (.pack (mul .binary64 (-x).toModel.unpack y.toModel.unpack)) =
    .ofModel (.pack (Float.Model.pack (mul .binary64 x.toModel.unpack y.toModel.unpack)).unpack.neg)
  rw [unpack_neg hx, Rounding.mul_neg_left, hrounded.pack_neg_unpack]

/-- The minus of a dividend is that of the quotient, whose divisor is not zero. -/
theorem opposite_div (hx : x.isFinite = true) (hy : y.isFinite = true) (hne : value y ≠ 0) :
    -x / y = -(x / y) := by
  have hz : (ofFloat y).significand ≠ 0 := fun hz => hne (by
    rw [value, Magnitude.value_eq_zero hz, Rounding.signed_zero])
  have hrounded := Rounding.rounded_div (Magnitude.sign x) (Magnitude.sign y) (m := ofFloat x) hz
  rw [← unpack_of_isFinite hx, ← unpack_of_isFinite hy] at hrounded
  change Float.ofModel (.pack (div .binary64 (-x).toModel.unpack y.toModel.unpack)) =
    .ofModel (.pack (Float.Model.pack (div .binary64 x.toModel.unpack y.toModel.unpack)).unpack.neg)
  rw [unpack_neg hx, Rounding.div_neg_left, hrounded.pack_neg_unpack]

end Double

end CurvePlot
