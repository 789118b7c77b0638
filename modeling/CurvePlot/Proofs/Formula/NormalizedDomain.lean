import CurvePlot.Formula.Reading
import CurvePlot.Proofs.Number.RoundingError
import CurvePlot.Proofs.Number.WholeNumbers

/-!
# Normalized domains are well formed

Whatever doubles a domain is made of, its normalized form has finite bounds in order, a finite
length and a finite positive step (`Domain.WellFormed`). The bounds pass a last test before they are
taken, and the standard ones, which replace them otherwise, pass it as well. The step is positive
before it is widened; and where the widened one, a quotient, would vanish, the length is at most
half a least unit for each sample, so that no positive step exceeds the number of samples and none
is widened (`Domain.not_exceeds_of_span_le`).

Normalizing a second time changes nothing. The bounds and the step of a well-formed domain pass all
tests, and a widened step is the quotient that would replace it.
-/

namespace CurvePlot

open Double

namespace Domain

/-- Finite bounds in order, a finite length and a finite positive step. -/
structure WellFormed (d : Domain) : Prop where
  /-- The lower bound is finite. -/
  isFinite_min : d.min.isFinite = true
  /-- The upper bound is finite. -/
  isFinite_max : d.max.isFinite = true
  /-- The bounds are different and in order. -/
  min_lt_max : d.min < d.max
  /-- The length is finite. -/
  isFinite_span : (d.max - d.min).isFinite = true
  /-- The step is finite. -/
  isFinite_step : d.step.isFinite = true
  /-- The step is positive. -/
  step_pos : 0 < d.step

/-! ### Bounds -/

/-- Usable bounds are finite, as their difference is. -/
theorem isFinite_of_isUsable {bounds : Float × Float} (h : isUsable bounds = true) :
    bounds.1.isFinite = true ∧ bounds.2.isFinite = true ∧ bounds.1 < bounds.2 ∧
      (bounds.2 - bounds.1).isFinite = true := by
  obtain ⟨hlt, hspan⟩ := Bool.and_eq_true_iff.mp h
  obtain ⟨hmax, hmin⟩ := isFinite_of_sub hspan
  exact ⟨hmin, hmax, of_decide_eq_true hlt, hspan⟩

/-- The standard bounds of every family are usable. -/
theorem isUsable_standard (family : Family) :
    isUsable (family.defaultDomain.min, family.defaultDomain.max) = true := by
  cases family <;> decide +kernel

/-- The bounds of a normalized domain are usable. -/
theorem isUsable_normalizedBounds (d : Domain) (family : Family) :
    isUsable (d.normalizedBounds family) = true := by
  have htest (bounds : Float × Float) : isUsable (if isUsable bounds then bounds
      else (family.defaultDomain.min, family.defaultDomain.max)) = true := by
    split
    · assumption
    · exact isUsable_standard family
  exact htest _

/-- The length between usable bounds is not negative. -/
theorem span_nonneg {bounds : Float × Float} (h : isUsable bounds = true) :
    0 ≤ value (bounds.2 - bounds.1) := by
  obtain ⟨hmin, hmax, hlt, hspan⟩ := isFinite_of_isUsable h
  have horder := (lt_iff hmin hmax).mp hlt
  exact (roundsTo_sub hmax hmin).zero_le_value hspan (by linarith)

/-- Bounds that are usable as given are not mended. -/
theorem normalizedBounds_of_isUsable {d : Domain} (h : isUsable (d.min, d.max) = true)
    (family : Family) : d.normalizedBounds family = (d.min, d.max) := by
  obtain ⟨hmin, hmax, hlt, -⟩ := isFinite_of_isUsable h
  have horder := (lt_iff hmin hmax).mp hlt
  have hordered : ordered (d.min, d.max) = (d.min, d.max) :=
    if_neg fun hgt => absurd ((lt_iff hmax hmin).mp hgt) (by linarith)
  have hapart (pad : Float) : widenedBy pad (d.min, d.max) = (d.min, d.max) :=
    if_neg fun heq => absurd ((beq_iff hmin hmax).mp heq) horder.ne
  unfold normalizedBounds
  dsimp only at hmin hmax ⊢
  rw [if_pos hmin, if_pos hmax, hordered, hapart, widenedRelatively, hapart, if_pos h]

/-! ### The step -/

/-- The standard step of every family is positive. -/
theorem standardStep_pos (family : Family) :
    family.defaultDomain.step.isFinite = true ∧ 0 < family.defaultDomain.step := by
  cases family <;> decide +kernel

/-- The step before widening is positive. -/
theorem positiveStep_pos (d : Domain) (family : Family) :
    (d.positiveStep family).isFinite = true ∧ 0 < value (d.positiveStep family) := by
  unfold positiveStep
  split
  · obtain ⟨hfinite, hpos⟩ := standardStep_pos family
    rw [lt_iff value_zero.1 hfinite, value_zero.2] at hpos
    exact ⟨hfinite, hpos⟩
  · next h =>
    simp only [Bool.or_eq_true, Bool.not_eq_true', decide_eq_true_eq, not_or,
      Bool.not_eq_false] at h
    obtain ⟨hfinite, hpos⟩ := h
    rw [le_iff hfinite value_zero.1, value_zero.2, not_le] at hpos
    exact ⟨hfinite, hpos⟩

section Widening

variable {span step : Float} {cap : ℕ}

/-- A length of at most half a least unit for each sample but one has no more samples than
allowed, whatever the step. -/
theorem not_exceeds_of_span_le (hspan : span.isFinite = true) (hlength : 0 ≤ value span)
    (hstep : step.isFinite = true) (hpos : 0 < value step) (hcap : 2 ≤ cap)
    (hfinite : cap.toFloat.isFinite = true) (hintervals : (cap - 1).toFloat.isFinite = true)
    (hsmall : value span ≤ value (cap - 1).toFloat * (2 ^ (-1074 : ℤ) / 2)) :
    ¬ cap.toFloat < span / step + 1 := by
  have hunit : (0 : ℚ) < 2 ^ (-1074 : ℤ) := zpow_pos (by norm_num) _
  have hleast : 2 ^ (-1074 : ℤ) ≤ value step :=
    not_lt.mp fun hlt => absurd (value_le_zero_of_lt hlt) (by linarith)
  have hone : 1 ≤ value cap.toFloat := one_le_value_nat (by omega) hfinite
  have hless : value (cap - 1).toFloat ≤ value cap.toFloat :=
    (roundsTo_nat _).value_le (roundsTo_nat _) (by exact_mod_cast Nat.sub_le cap 1) hintervals
      hfinite
  -- A double between the exact quotient and the number of intervals.
  obtain ⟨d, hd, hquotient, hroom⟩ : ∃ d : Float, d.isFinite = true ∧
      value span / value step ≤ value d ∧ value d + 1 ≤ value cap.toFloat := by
    rcases lt_or_ge (value (cap - 1).toFloat) 2 with htwo | htwo
    · have hless : value span < 2 ^ (-1074 : ℤ) := by
        have := mul_lt_mul_of_pos_right htwo (half_pos hunit)
        linarith
      have hzero : value span = 0 := le_antisymm (value_le_zero_of_lt hless) hlength
      refine ⟨0, value_zero.1, ?_, ?_⟩
      · rw [hzero, zero_div, value_zero.2]
      · rwa [value_zero.2, zero_add]
    · obtain ⟨d, hd, hhalf⟩ := exists_half hintervals (by linarith)
      refine ⟨d, hd, ?_, by linarith⟩
      rw [div_le_iff₀ hpos, hhalf]
      have := mul_le_mul_of_nonneg_left hleast (show 0 ≤ value (cap - 1).toFloat / 2 by linarith)
      linarith
  obtain ⟨hq, -, hqd⟩ := (roundsTo_div hspan hstep hpos.ne').between value_zero.1 hd
    (by rw [value_zero.2]; exact div_nonneg hlength hpos.le) hquotient
  have hq0 := (roundsTo_div hspan hstep hpos.ne').zero_le_value hq (div_nonneg hlength hpos.le)
  have hsum := roundsTo_add hq value_one.1
  rw [value_one.2] at hsum
  obtain ⟨hsumFinite, -, hle⟩ := hsum.between value_zero.1 hfinite
    (by rw [value_zero.2]; linarith) (by linarith)
  rw [lt_iff hfinite hsumFinite]
  exact not_lt.mpr hle

/-- Widening keeps a positive step positive. -/
theorem cappedStep_pos (hspan : span.isFinite = true) (hlength : 0 ≤ value span)
    (hstep : step.isFinite = true) (hpos : 0 < value step) (hcap : 2 ≤ cap) :
    (cappedStep span step cap).isFinite = true ∧ 0 < value (cappedStep span step cap) := by
  unfold cappedStep
  split
  · next hexceeds =>
    have hfinite : cap.toFloat.isFinite = true := by
      by_contra hinfinite
      have hpositive : (0 : ℚ) < cap := by exact_mod_cast (by omega : 0 < cap)
      exact ((roundsTo_nat cap).isInfinity hpositive hinfinite).not_lt _ hexceeds
    have hintervals : (cap - 1).toFloat.isFinite = true := by
      refine (roundsTo_nat (cap - 1)).isFinite_of_abs_le (roundsTo_nat cap) ?_ hfinite
      rw [Nat.abs_cast, Nat.abs_cast]
      exact_mod_cast Nat.sub_le cap 1
    have hone : 1 ≤ value (cap - 1).toFloat := one_le_value_nat (by omega) hintervals
    have hquotient := roundsTo_div hspan hintervals (by linarith : value (cap - 1).toFloat ≠ 0)
    have hnonneg := div_nonneg hlength (zero_le_one.trans hone)
    obtain ⟨hw, hw0, -⟩ := hquotient.between value_zero.1 hspan (by rwa [value_zero.2])
      (div_le_self hlength hone)
    rw [value_zero.2] at hw0
    refine ⟨hw, hw0.lt_of_ne fun hzero => ?_⟩
    have hsmall := hquotient.le_of_subnormal hw hnonneg
      (by rw [← hzero]; exact zpow_pos (by norm_num) _)
    rw [← hzero, zero_add, div_le_iff₀ (by linarith), mul_comm] at hsmall
    exact not_exceeds_of_span_le hspan hlength hstep hpos hcap hfinite hintervals hsmall hexceeds
  · exact ⟨hstep, hpos⟩

end Widening

/-- A normalized domain is well formed. -/
theorem wellFormed_normalized (d : Domain) (family : Family) (maxSamples : ℕ) :
    (d.normalized family maxSamples).WellFormed := by
  have hbounds := isUsable_normalizedBounds d family
  obtain ⟨hmin, hmax, hlt, hspan⟩ := isFinite_of_isUsable hbounds
  obtain ⟨hstep, hpos⟩ := positiveStep_pos d family
  obtain ⟨hfinite, hwidened⟩ := cappedStep_pos hspan (span_nonneg hbounds) hstep hpos
    (Nat.le_max_right maxSamples 2)
  exact ⟨hmin, hmax, hlt, hspan, hfinite,
    (lt_iff value_zero.1 hfinite).mpr (value_zero.2.trans_lt hwidened)⟩

/-! ### Normalizing again -/

/-- A step that was widened is not widened any further: even if the quotient was rounded so that
the grid has too many points again, the same quotient replaces it. -/
theorem cappedStep_cappedStep (span step : Float) (cap : ℕ) :
    cappedStep span (cappedStep span step cap) cap = cappedStep span step cap := by
  by_cases hexceeds : span / step + 1 > cap.toFloat
  · have hwidened : cappedStep span step cap = span / (cap - 1).toFloat := if_pos hexceeds
    rw [hwidened]
    exact ite_self _
  · have hkept : cappedStep span step cap = step := if_neg hexceeds
    rw [hkept, hkept]

/-- Of a well-formed domain only the step is changed. -/
theorem WellFormed.normalized_eq_cappedStep {d : Domain} (h : d.WellFormed) (family : Family)
    (maxSamples : ℕ) : d.normalized family maxSamples =
      ⟨d.min, d.max, cappedStep (d.max - d.min) d.step (Nat.max maxSamples 2)⟩ := by
  have hbounds : d.normalizedBounds family = (d.min, d.max) := normalizedBounds_of_isUsable
    (Bool.and_eq_true_iff.mpr ⟨decide_eq_true h.min_lt_max, h.isFinite_span⟩) family
  have hpos : ¬d.step ≤ 0 := by
    rw [le_iff h.isFinite_step value_zero.1, not_le]
    exact (lt_iff value_zero.1 h.isFinite_step).mp h.step_pos
  have hstep : d.positiveStep family = d.step := if_neg (by simp [h.isFinite_step, hpos])
  rw [normalized, hbounds, hstep]

/-- A well-formed domain is normalized alike for all families. -/
theorem WellFormed.normalized_eq {d : Domain} (h : d.WellFormed) (f g : Family) (n : ℕ) :
    d.normalized f n = d.normalized g n := by
  rw [h.normalized_eq_cappedStep, h.normalized_eq_cappedStep]

/-- Normalizing a normalized domain again, for whatever family, gives the same doubles. -/
theorem normalized_normalized (d : Domain) (family other : Family) (maxSamples : ℕ) :
    (d.normalized family maxSamples).normalized other maxSamples =
      d.normalized family maxSamples := by
  rw [(d.wellFormed_normalized family maxSamples).normalized_eq_cappedStep]
  exact congrArg (Domain.mk (d.normalized family maxSamples).min
    (d.normalized family maxSamples).max) (cappedStep_cappedStep _ _ _)

end Domain

/-- The domain of a plot that was read is a normalized one. -/
theorem ReadingRules.exists_domain_eq {rules : ReadingRules} {formula : String} {p : Plot}
    (h : rules.read formula = .ok p) :
    ∃ d : Domain, p.domain = d.normalized p.family rules.maxSamples := by
  unfold read at h
  split at h
  · cases h
  · cases h
    exact ⟨_, rfl⟩

/-- Normalizing makes a well-formed domain of any doubles, without moving the bounds of one that is
well formed; and so every plot that is read has a well-formed domain, whatever the rules. -/
theorem normalized_and_read_wellFormed :
    (∀ (d : Domain) (family : Family) (maxSamples : ℕ),
      (d.normalized family maxSamples).WellFormed ∧
        (d.WellFormed → (d.normalized family maxSamples).min = d.min ∧
          (d.normalized family maxSamples).max = d.max)) ∧
      ∀ (rules : ReadingRules) (formula : String) (p : Plot), rules.read formula = .ok p →
        p.domain.WellFormed := by
  refine ⟨fun d family maxSamples => ⟨d.wellFormed_normalized family maxSamples, fun h => ?_⟩,
    fun rules formula p h => ?_⟩
  · have hbounds := Domain.normalizedBounds_of_isUsable (d := d)
      (Bool.and_eq_true_iff.mpr ⟨decide_eq_true h.min_lt_max, h.isFinite_span⟩) family
    simp [Domain.normalized, hbounds]
  · obtain ⟨d, hd⟩ := ReadingRules.exists_domain_eq h
    rw [hd]
    exact d.wellFormed_normalized _ _

/-- Bounds in order are kept while their step is widened, and a formula with coinciding bounds and
no step has a plot, though the agreed range has no finite part. -/
theorem normalized_and_read_wellFormed_coinciding :
    Domain.WellFormed ⟨-1, 3, 0.5⟩ ∧
      (Domain.normalized ⟨-1, 3, 0.5⟩ .linear 3).min = -1 ∧
      (Domain.normalized ⟨-1, 3, 0.5⟩ .linear 3).max = 3 ∧
      ∃ p, ReadingRules.read ⟨[], none, 3, some ⟨some nan, some infinity, some (-infinity)⟩⟩
        "linear:2,1,7,7,0" = .ok p ∧ p.domain.WellFormed := by
  have hordered : Domain.WellFormed ⟨-1, 3, 0.5⟩ := by constructor <;> decide +kernel
  obtain ⟨hmin, hmax⟩ := (normalized_and_read_wellFormed.1 _ .linear 3).2 hordered
  cases hread : ReadingRules.read ⟨[], none, 3, some ⟨some nan, some infinity, some (-infinity)⟩⟩
      "linear:2,1,7,7,0" with
  | ok p => exact ⟨hordered, hmin, hmax, p, rfl, normalized_and_read_wellFormed.2 _ _ p hread⟩
  | error e =>
    have hok : (ReadingRules.read ⟨[], none, 3, some ⟨some nan, some infinity, some (-infinity)⟩⟩
      "linear:2,1,7,7,0").toBool = true := by decide +kernel
    rw [hread] at hok
    cases hok

end CurvePlot
