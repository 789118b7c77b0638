import CurvePlot.Proofs.Number.RoundingError
import CurvePlot.Proofs.Number.SwappedOperands

/-!
# Zeros among the operands

A quotient by a zero of either sign is an infinity or NaN (`Double.isFinite_div_of_beq_zero`). A zero
divided by anything else is a zero, and a double that is taken from zero, negated and divided by one
is itself in number (`Double.Agree`). Infinities and NaN are included.
-/

namespace CurvePlot

open Float.Model (UnpackedFloat)
open Float.Model.UnpackedFloat

namespace Double

variable {x y : Float}

/-! ### Zeros -/

/-- What equals zero unpacks into a zero of either sign. -/
theorem unpack_of_beq_zero (h : (y == 0) = true) : ∃ s, y.toModel.unpack = .zero s := by
  change UnpackedFloat.beq y.toModel.unpack (0 : Float).toModel.unpack = true at h
  have hzero : (0 : Float).toModel.unpack = .zero .positive := rfl
  rw [hzero] at h
  cases hy : y.toModel.unpack with
  | zero s => exact ⟨s, rfl⟩
  | infinity s => rw [hy] at h; cases s <;> cases h
  | notANumber => rw [hy] at h; cases h
  | finite s m e hm => rw [hy] at h; cases s <;> cases h

/-- A quotient by zero is never finite. -/
theorem isFinite_div_of_beq_zero (x : Float) (h : (y == 0) = true) : (x / y).isFinite = false := by
  obtain ⟨s, hs⟩ := unpack_of_beq_zero h
  rw [Bool.eq_false_iff]
  intro hfinite
  have hquotient : (div .binary64 x.toModel.unpack y.toModel.unpack).isFinite = true :=
    isFinite_of_pack hfinite
  rw [hs] at hquotient
  cases hx : x.toModel.unpack <;> rw [hx] at hquotient <;> cases hquotient

/-- A zero taken from one leaves one. -/
theorem one_sub_of_beq_zero (h : (y == 0) = true) : 1 - y = 1 := by
  obtain ⟨s, hs⟩ := unpack_of_beq_zero h
  change Float.ofModel (.pack (sub .binary64 (1 : Float).toModel.unpack y.toModel.unpack)) = 1
  rw [hs]
  cases s <;> rfl

/-- A zero divided by what is neither zero nor NaN is a zero. -/
theorem neg_zero_div_add_zero (hnan : y.isNaN = false) (hy : (y == 0) = false) : -0 / y + 0 = 0 := by
  have hzero : (-0 : Float).toModel.unpack = .zero .negative := rfl
  change y.toModel.unpack.isNaN = false at hnan
  change UnpackedFloat.beq y.toModel.unpack (.zero .positive) = false at hy
  change Float.ofModel (.pack (div .binary64 (-0 : Float).toModel.unpack y.toModel.unpack)) + 0 = 0
  rw [hzero]
  cases hu : y.toModel.unpack with
  | notANumber => rw [hu] at hnan; cases hnan
  | zero s => rw [hu] at hy; cases hy
  | infinity _ | finite _ _ _ _ => exact pack_zero_add_zero _

/-! ### Equality in number -/

/-- Whether two doubles are equal in number or both NaN. -/
def Agree (x y : Float) : Prop :=
  (x == y) = true ∨ x.isNaN = true ∧ y.isNaN = true

instance (x y : Float) : Decidable (Agree x y) :=
  inferInstanceAs (Decidable (_ ∨ _))

/-- Doubles that unpack into the same are the same. -/
theorem eq_of_unpack_eq (h : x.toModel.unpack = y.toModel.unpack) : x = y :=
  Magnitude.float_ext
    (UInt64.toBitVec_inj.mp ((unpack_inj_of_valid x.toModel.valid y.toModel.valid).mp h))

/-- NaN and the two infinities are the doubles that are not finite. -/
theorem cases_of_not_isFinite (hx : x.isFinite = false) : x = nan ∨ x = infinity ∨ x = -infinity := by
  cases hnan : x.isNaN with
  | true => exact Or.inl (eq_of_unpack_eq (isNaN_iff.mp hnan))
  | false =>
    have hinfinity := eq_infinity hnan hx
    split at hinfinity
    · exact Or.inr (Or.inr hinfinity)
    · exact Or.inr (Or.inl hinfinity)

/-- Every double agrees with itself. -/
theorem Agree.refl (x : Float) : Agree x x := by
  cases hx : x.isFinite with
  | true => exact Or.inl ((beq_iff hx hx).mpr rfl)
  | false =>
    rcases cases_of_not_isFinite hx with rfl | rfl | rfl
    · exact Or.inr ⟨rfl, rfl⟩
    · exact Or.inl rfl
    · exact Or.inl rfl

/-- One less a number that is not NaN is not NaN. -/
theorem isNaN_one_sub (hnan : y.isNaN = false) : (1 - y).isNaN = false := by
  cases hy : y.isFinite with
  | true => exact (roundsTo_sub value_one.1 hy).isNaN_eq
  | false =>
    rcases cases_of_not_isFinite hy with rfl | rfl | rfl
    · cases hnan
    · rfl
    · rfl

/-- A double taken from zero, negated and divided by one is the double in number. -/
theorem agree_neg_sub_div_one (x : Float) : Agree x (-(0 - x) / 1 + 0) := by
  cases hx : x.isFinite with
  | true =>
    -- No step rounds: every exact result is the double or its opposite.
    obtain ⟨hopposite, hvalueOpposite⟩ := value_neg hx
    have hsub := roundsTo_sub value_zero.1 hx
    obtain ⟨hd, hvd⟩ := hsub.value_eq hopposite (by rw [hvalueOpposite, value_zero.2, zero_sub])
    obtain ⟨hn, hvn⟩ := value_neg hd
    have hvx : value (-(0 - x)) = value x := by rw [hvn, hvd, value_zero.2, zero_sub, neg_neg]
    have hdiv := roundsTo_div hn value_one.1 (by rw [value_one.2]; exact one_ne_zero)
    obtain ⟨hq, hvq⟩ := hdiv.value_eq hx (by rw [hvx, value_one.2, div_one])
    have hadd := roundsTo_add hq value_zero.1
    obtain ⟨hs, hvs⟩ := hadd.value_eq hx (by rw [hvq, hvx, value_one.2, div_one, value_zero.2,
      add_zero])
    refine Or.inl ((beq_iff hx hs).mpr ?_)
    rw [hvs, hvq, hvx, value_one.2, div_one, value_zero.2, add_zero]
  | false =>
    rcases cases_of_not_isFinite hx with rfl | rfl | rfl
    · exact Or.inr ⟨rfl, rfl⟩
    · exact Or.inl rfl
    · exact Or.inl rfl

end Double

end CurvePlot
