import CurvePlot.Output.Picture
import CurvePlot.Proofs.Number.PositiveOrder
import Mathlib.Data.List.SplitBy

/-!
# Where segments start

The segments of a curve are its samples in the same order, in pixels: none is lost and none is drawn
twice. A segment starts with the first sample, and again with every sample that is more than one and
a half times the smallest positive step to the right of the one before (`pixelSegments_starts`). The
samples may be in any order and at any places, the infinities and NaN included. A step may then be
no number, which is not positive and cuts nothing, or infinite, which is above all others.

A list that is cut between neighbours has a piece starting just where neighbours are parted
(`startsAt_splitBy_iff`). The smallest step is one of the steps, and there is only one
(`IsSmallestStep.smallestStep_eq`). A place is drawn at the nearest pixel
(`Pixel.rounds_coordinate`).
-/

namespace CurvePlot

open Magnitude

/-! ### Steps -/

/-- Whether some sample is so far to the right of the one before. -/
def IsStep (samples : List MappedSample) (v : Float) : Prop :=
  ∃ n, ∃ hn : n + 1 < samples.length, v = samples[n + 1].x - samples[n].x

/-- Whether a step is the smallest positive one from a sample to the next. -/
structure IsSmallestStep (samples : List MappedSample) (step : Float) : Prop where
  /-- It is a step. -/
  isStep : IsStep samples step
  /-- It is positive. -/
  pos : 0 < step
  /-- No positive step is smaller. -/
  le : ∀ v, IsStep samples v → 0 < v → step ≤ v

section Steps

variable {samples : List MappedSample}

/-- The positive steps, as they are looked through. -/
theorem mem_positiveSteps_iff {v : Float} :
    v ∈ ((samples.zip (samples.drop 1)).map fun (first, second) => second.x - first.x).filter
        (fun step => step > 0) ↔ IsStep samples v ∧ 0 < v := by
  rw [List.mem_filter, decide_eq_true_iff, gt_iff_lt, and_congr_left_iff]
  intro _
  simp only [IsStep, List.mem_iff_getElem, List.length_map, List.length_zip, List.length_drop,
    List.getElem_map, List.getElem_zip, List.getElem_drop]
  constructor
  · rintro ⟨n, hn, rfl⟩
    refine ⟨n, by omega, ?_⟩
    simp only [Nat.add_comm 1 n]
  · rintro ⟨n, hn, rfl⟩
    refine ⟨n, by omega, ?_⟩
    simp only [Nat.add_comm 1 n]

/-- The smallest step is found, if there is a positive one. -/
theorem isSmallestStep_smallestStep {v : Float} (hv : IsStep samples v) (hpos : 0 < v) :
    IsSmallestStep samples (smallestStep samples) := by
  obtain ⟨hmem, hle⟩ := Double.foldl_lesser_infinity_of_pos
    (fun w hw => (mem_positiveSteps_iff.mp hw).2)
    (List.ne_nil_of_mem (mem_positiveSteps_iff.mpr ⟨hv, hpos⟩))
  obtain ⟨hisStep, hleast⟩ := mem_positiveSteps_iff.mp hmem
  exact ⟨hisStep, hleast, fun w hw hpos => (Double.le_iff_reach hleast hpos).mpr
    (hle w (mem_positiveSteps_iff.mpr ⟨hw, hpos⟩))⟩

/-- There is one smallest step. -/
theorem IsSmallestStep.smallestStep_eq {step : Float} (h : IsSmallestStep samples step) :
    smallestStep samples = step := by
  have hfound := isSmallestStep_smallestStep h.isStep h.pos
  have hle := hfound.le step h.isStep h.pos
  have hge := h.le _ hfound.isStep hfound.pos
  rw [Double.le_iff_reach hfound.pos h.pos] at hle
  rw [Double.le_iff_reach h.pos hfound.pos] at hge
  exact Double.eq_of_reach_eq hfound.pos h.pos (le_antisymm hle hge)

/-- Without a positive step nothing is cut. -/
theorem not_limit_lt (h : ∀ v, IsStep samples v → ¬0 < v) (step : Float) :
    ¬1.5 * smallestStep samples < step := by
  have hnone : smallestStep samples = Double.infinity := by
    have hempty : ((samples.zip (samples.drop 1)).map fun (first, second) =>
        second.x - first.x).filter (fun step => step > 0) = [] := by
      refine List.eq_nil_iff_forall_not_mem.mpr fun v hv => ?_
      obtain ⟨hstep, hpos⟩ := mem_positiveSteps_iff.mp hv
      exact h v hstep hpos
    exact congrArg (List.foldl Double.lesser Double.infinity) hempty
  have hproduct : 1.5 * Double.infinity = Double.infinity := by decide
  have hinfinity : Double.IsInfinity Double.infinity := ⟨rfl, rfl, rfl⟩
  rw [hnone, hproduct]
  exact hinfinity.not_lt step

/-- So there is one segment at most. -/
theorem length_segments_le_one (h : ∀ v, IsStep samples v → ¬0 < v) :
    (segments samples).length ≤ 1 := by
  have huncut : samples.IsChain fun first second =>
      (!decide (second.x - first.x > 1.5 * smallestStep samples)) = true := by
    rw [List.isChain_iff_getElem]
    intro n _
    simpa using not_limit_lt h _
  cases samples with
  | nil => exact Nat.zero_le 1
  | cons first rest =>
    rw [segments, List.splitBy_of_isChain (List.cons_ne_nil _ _) huncut]
    exact Nat.le_refl 1

end Steps

/-! ### Pieces -/

/-- Whether a piece starts with the entry of this index, all pieces being in a row. -/
def StartsAt {α : Type} (pieces : List (List α)) (n : ℕ) : Prop :=
  ∃ k < pieces.length, (pieces.take k).flatten.length = n

/-- Pieces start where they did when their entries are replaced. -/
theorem startsAt_map {α β : Type} (f : α → β) {pieces : List (List α)} {n : ℕ} :
    StartsAt (pieces.map (List.map f)) n ↔ StartsAt pieces n := by
  simp only [StartsAt, List.length_map, ← List.map_take, ← List.map_flatten]

/-- Two entries behind the front of a list. -/
theorem getElem?_of_eq_append {α : Type} {l front back : List α} {a b : α}
    (h : l = front ++ a :: b :: back) :
    l[front.length]? = some a ∧ l[front.length + 1]? = some b := by
  subst h
  simp

/-- Around the start of a piece stand its first entry and the last one of the piece before. -/
theorem flatten_around {α : Type} {pieces : List (List α)} {j : ℕ} (hj : j + 1 < pieces.length)
    (hfront : pieces[j] ≠ []) (hback : pieces[j + 1] ≠ []) :
    pieces.flatten = ((pieces.take j).flatten ++ pieces[j].dropLast) ++
      pieces[j].getLast hfront :: pieces[j + 1].head hback ::
        (pieces[j + 1].tail ++ (pieces.drop (j + 2)).flatten) := by
  have hpieces := calc pieces
    _ = pieces.take j ++ pieces[j] :: pieces[j + 1] :: pieces.drop (j + 2) := by
      rw [List.getElem_cons_drop, List.getElem_cons_drop, List.take_append_drop]
    _ = pieces.take j ++ (pieces[j].dropLast ++ [pieces[j].getLast hfront]) ::
        (pieces[j + 1].head hback :: pieces[j + 1].tail) :: pieces.drop (j + 2) := by
      rw [List.dropLast_append_getLast, List.cons_head_tail]
  conv_lhs => rw [hpieces]
  simp only [List.flatten_append, List.flatten_cons, List.append_assoc, List.cons_append,
    List.nil_append]

/-- A list is cut just before the entries that do not go with the one before. -/
theorem startsAt_splitBy_iff {α : Type} {r : α → α → Bool} {l : List α} {n : ℕ}
    (hn : n + 1 < l.length) : StartsAt (l.splitBy r) (n + 1) ↔ r l[n] l[n + 1] = false := by
  constructor
  · rintro ⟨k, hk, hlength⟩
    obtain ⟨j, rfl⟩ : ∃ j, k = j + 1 :=
      Nat.exists_eq_succ_of_ne_zero (by rintro rfl; simp at hlength)
    obtain ⟨hfront, hback, hcut⟩ :=
      List.isChain_iff_getElem.mp (List.isChain_getLast_head_splitBy r l) j hk
    have hlist := (List.flatten_splitBy r l).symm.trans (flatten_around hk hfront hback)
    have hplace : (((l.splitBy r).take j).flatten ++ (l.splitBy r)[j].dropLast).length = n := by
      rw [List.take_succ_eq_append_getElem (by omega)] at hlength
      have hpos := List.length_pos_iff.mpr hfront
      simp only [List.flatten_append, List.flatten_singleton, List.length_append,
        List.length_dropLast] at hlength ⊢
      omega
    obtain ⟨hleft, hright⟩ := getElem?_of_eq_append hlist
    rw [hplace, List.getElem?_eq_getElem (by omega), Option.some.injEq] at hleft
    rw [hplace, List.getElem?_eq_getElem hn, Option.some.injEq] at hright
    rwa [hleft, hright]
  · intro hcut
    have hlist : l = l.take (n + 1) ++ l[n + 1] :: l.drop (n + 2) := by
      rw [List.getElem_cons_drop, List.take_append_drop]
    have hpieces : l.splitBy r =
        (l.take (n + 1)).splitBy r ++ (l[n + 1] :: l.drop (n + 2)).splitBy r := by
      conv_lhs => rw [hlist]
      refine List.splitBy_append_cons _ fun a ha => ?_
      rw [List.getLast?_take, if_neg (Nat.succ_ne_zero n), Nat.add_sub_cancel,
        List.getElem?_eq_getElem (by omega)] at ha
      obtain rfl : l[n] = a := by simpa using ha
      exact hcut
    refine ⟨((l.take (n + 1)).splitBy r).length, ?_, ?_⟩
    · rw [hpieces, List.length_append, Nat.lt_add_right_iff_pos, List.length_pos_iff]
      exact List.splitBy_ne_nil.mpr (List.cons_ne_nil _ _)
    · rw [hpieces, List.take_left, List.flatten_splitBy, List.length_take]
      omega

/-! ### Pixels -/

/-- Whether a whole number is the nearest one to a value, of two the one farther from zero. -/
structure IsNearest (v : ℚ) (z : ℤ) : Prop where
  /-- None is nearer. -/
  near : |v - z| ≤ 1 / 2
  /-- From the middle between two it goes away from zero. -/
  half : |v - z| = 1 / 2 → |v| < |(z : ℚ)|

/-- Nearest numbers of opposite values are opposite. -/
theorem IsNearest.neg {v : ℚ} {z : ℤ} (h : IsNearest v z) : IsNearest (-v) (-z) := by
  have hdistance : -v - ((-z : ℤ) : ℚ) = -(v - z) := by push_cast; ring
  refine ⟨?_, fun hhalf => ?_⟩
  · rw [hdistance, abs_neg]
    exact h.near
  · rw [hdistance, abs_neg] at hhalf
    rw [abs_neg, Int.cast_neg, abs_neg]
    exact h.half hhalf

/-- A magnitude is rounded to the nearest natural number. -/
theorem Magnitude.isNearest_round (m : Magnitude) : IsNearest m.value (m.round : ℤ) := by
  by_cases he : 0 ≤ m.exponent
  · obtain ⟨k, hk⟩ := Int.eq_ofNat_of_zero_le he
    have hexact : m.value = ((m.round : ℤ) : ℚ) := by
      rw [round_of_exponent_nonneg he, value, hk]
      push_cast
      simp
    rw [hexact]
    exact ⟨by norm_num, by norm_num⟩
  · obtain ⟨k, hk⟩ : ∃ k : ℕ, m.exponent = -k := ⟨(-m.exponent).toNat, by omega⟩
    have hround : m.round = (2 * m.significand + 2 ^ k) / 2 ^ (k + 1) := by
      rw [round, if_neg he, hk, neg_neg, Int.toNat_natCast]
      rfl
    have hunit : (0 : ℚ) < 2 ^ k := by positivity
    have hvalue : m.value * 2 ^ k = m.significand := by
      rw [value, hk, zpow_neg, zpow_natCast, mul_assoc, inv_mul_cancel₀ hunit.ne', mul_one]
    have hdivision := Nat.div_add_mod (2 * m.significand + 2 ^ k) (2 ^ (k + 1))
    have hrest := Nat.mod_lt (2 * m.significand + 2 ^ k) (Nat.two_pow_pos (k + 1))
    rw [← hround] at hdivision
    generalize (2 * m.significand + 2 ^ k) % 2 ^ (k + 1) = rest at hdivision hrest
    have hexact : 2 ^ (k + 1) * (m.round : ℚ) + rest = 2 * m.significand + 2 ^ k := by
      exact_mod_cast hdivision
    have hless : (rest : ℚ) < 2 ^ (k + 1) := by exact_mod_cast hrest
    have hnonneg : (0 : ℚ) ≤ rest := Nat.cast_nonneg rest
    rw [pow_succ] at hexact hless
    have hdistance : m.value - ((m.round : ℤ) : ℚ) = (rest - 2 ^ k) / (2 ^ k * 2) := by
      rw [eq_div_iff (by positivity), Int.cast_natCast]
      linarith
    refine ⟨?_, fun hhalf => ?_⟩
    · rw [hdistance, abs_le, le_div_iff₀ (by positivity), div_le_iff₀ (by positivity)]
      constructor <;> linarith
    · -- Only a half below the whole number is as far from it.
      have hbelow : m.value - ((m.round : ℤ) : ℚ) = -(1 / 2) := by
        refine ((abs_eq (by norm_num)).mp hhalf).resolve_left fun habove => ?_
        rw [hdistance, div_eq_iff (by positivity)] at habove
        linarith
      rw [abs_of_nonneg m.value_nonneg, abs_of_nonneg (by positivity)]
      linarith

/-- A finite double is rounded to the nearest whole number. -/
theorem Magnitude.isNearest_roundFloat (x : Float) : IsNearest (Double.value x) (roundFloat x) := by
  unfold Double.value roundFloat sign
  split
  · exact (isNearest_round (ofFloat x)).neg
  · exact isNearest_round (ofFloat x)

/-- Whether a coordinate is a place, rounded to the nearest whole number and moved into the range of
a word. -/
def Pixel.Rounds (place : Float) (coordinate : Int32) : Prop :=
  ∃ z, IsNearest (Double.value place) z ∧ coordinate.toInt = max (-2 ^ 31) (min z (2 ^ 31 - 1))

/-- A whole number is moved into the range of a word. -/
theorem Pixel.toInt_ofIntClamp (z : ℤ) :
    (Int32.ofIntClamp z).toInt = max (-2 ^ 31) (min z (2 ^ 31 - 1)) := by
  have hmin : Int32.minValue.toInt = -2 ^ 31 := by decide
  have hmax : Int32.maxValue.toInt = 2 ^ 31 - 1 := by decide
  unfold Int32.ofIntClamp
  split
  · split
    · rw [Int32.toInt_ofIntLE]
      omega
    · omega
  · omega

/-- The coordinate of a finite place is so rounded. -/
theorem Pixel.rounds_coordinate {place : Float} (h : place.isFinite = true) :
    Rounds place (coordinate place) := by
  obtain ⟨hnan, hinf⟩ := Double.isNaN_isInf_of_isFinite h
  refine ⟨roundFloat place, isNearest_roundFloat place, ?_⟩
  rw [coordinate, hnan, hinf, if_neg Bool.false_ne_true, if_neg Bool.false_ne_true]
  exact toInt_ofIntClamp _

/-- The segments of a curve, as pixels. -/
def pixelSegments (samples : List MappedSample) : List (List Pixel) :=
  (segments samples).map (List.map Pixel.ofSample)

/-- The shapes of a curve that is no polar one are those of its segments. -/
theorem Picture.curveShapes_eq (colour : Colour) (samples : List MappedSample) :
    curveShapes false colour samples =
      (pixelSegments samples).filterMap (segmentShape? colour) := by
  rw [pixelSegments, List.filterMap_map]
  rfl

/-- A curve is drawn by its segments. They are not empty, and in a row they are the rounded places
of its samples. A segment starts with each sample that is more than one and a half times the
smallest positive step to the right of the one before, and with no other one but the first. If no
step is positive there is one segment at most, and otherwise there is a smallest one. -/
theorem pixelSegments_starts (samples : List MappedSample) :
    (∀ colour, Picture.curveShapes false colour samples =
      (pixelSegments samples).filterMap (Picture.segmentShape? colour)) ∧
    [] ∉ pixelSegments samples ∧
    (pixelSegments samples).flatten = samples.map Pixel.ofSample ∧
    (∀ s ∈ samples, (s.drawX.isFinite = true → Pixel.Rounds s.drawX (Pixel.ofSample s).x) ∧
      (s.drawY.isFinite = true → Pixel.Rounds s.drawY (Pixel.ofSample s).y)) ∧
    (∀ step, IsSmallestStep samples step → ∀ n (hn : n + 1 < samples.length),
      StartsAt (pixelSegments samples) (n + 1) ↔
        1.5 * step < samples[n + 1].x - samples[n].x) ∧
    ((∃ step, IsSmallestStep samples step) ∨
      (∀ v, IsStep samples v → ¬0 < v) ∧ (pixelSegments samples).length ≤ 1) := by
  refine ⟨fun colour => Picture.curveShapes_eq colour samples, ?_, ?_,
    fun s _ => ⟨Pixel.rounds_coordinate, Pixel.rounds_coordinate⟩, ?_, ?_⟩
  · intro hmem
    obtain ⟨piece, hpiece, hnil⟩ := List.mem_map.mp hmem
    exact List.ne_nil_of_mem_splitBy hpiece (List.map_eq_nil_iff.mp hnil)
  · rw [pixelSegments, ← List.map_flatten, segments, List.flatten_splitBy]
  · intro step hstep n hn
    rw [pixelSegments, startsAt_map, segments, startsAt_splitBy_iff hn, hstep.smallestStep_eq]
    simp
  · by_cases hpositive : ∃ v, IsStep samples v ∧ 0 < v
    · obtain ⟨v, hv, hpos⟩ := hpositive
      exact Or.inl ⟨_, isSmallestStep_smallestStep hv hpos⟩
    · have hnone : ∀ v, IsStep samples v → ¬0 < v := fun v hv hpos => hpositive ⟨v, hv, hpos⟩
      refine Or.inr ⟨hnone, ?_⟩
      rw [pixelSegments, List.length_map]
      exact length_segments_le_one hnone

/-- Of samples at `0`, `1`, `1`, `3` and `2` the last two make a segment of their own. -/
theorem pixelSegments_starts_back :
    ∃ samples : List MappedSample, samples.map MappedSample.x = [0, 1, 1, 3, 2] ∧
      pixelSegments samples = [[⟨0, 0⟩, ⟨1, 0⟩, ⟨1, 0⟩], [⟨3, 0⟩, ⟨2, 0⟩]] ∧
      IsSmallestStep samples 1 ∧
      ∀ n, n + 1 < samples.length → (StartsAt (pixelSegments samples) (n + 1) ↔ n = 2) := by
  let samples : List MappedSample :=
    [⟨0, 0, 0, 0⟩, ⟨1, 0, 1, 0⟩, ⟨1, 0, 1, 0⟩, ⟨3, 0, 3, 0⟩, ⟨2, 0, 2, 0⟩]
  have hsteps : ∀ n (hn : n + 1 < samples.length),
      (0 < samples[n + 1].x - samples[n].x → 1 ≤ samples[n + 1].x - samples[n].x) ∧
        (1.5 * 1 < samples[n + 1].x - samples[n].x ↔ n = 2) := by
    intro n hn
    have hless : n < 4 := Nat.lt_of_succ_lt_succ hn
    interval_cases n <;> decide +kernel +revert
  have hsmallest : IsSmallestStep samples 1 :=
    ⟨⟨0, by decide, by decide +kernel⟩, by decide +kernel,
      fun v ⟨n, hn, hv⟩ hpos => hv ▸ (hsteps n hn).1 (hv ▸ hpos)⟩
  exact ⟨samples, rfl, by decide +kernel, hsmallest, fun n hn =>
    ((pixelSegments_starts samples).2.2.2.2.1 1 hsmallest n hn).trans (hsteps n hn).2⟩

end CurvePlot
