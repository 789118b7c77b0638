import CurvePlot.Proofs.Number.RoundedDistance
import CurvePlot.Proofs.Number.ZeroOperands

/-!
# The order of positive doubles

A positive double is finite, with a positive value, or the infinity. Positive doubles are ordered
like their values, with the infinity above all of them (`Double.le_iff_reach`), and no two have the
same (`Double.eq_of_reach_eq`). So the least of some is well defined, and it is what comes of taking
them one after the other, from the infinity on (`Double.foldl_lesser_infinity_of_pos`).
-/

namespace CurvePlot

open Magnitude

namespace Double

variable {x y : Float}

/-- The value of a positive double, with the infinity above all values. -/
def reach (x : Float) : WithTop ℚ :=
  if x.isFinite then (value x : WithTop ℚ) else ⊤

/-- A positive double is finite with a positive value, or the infinity. -/
theorem finite_or_eq_infinity (h : 0 < x) :
    x.isFinite = true ∧ 0 < value x ∨ x = infinity := by
  cases hx : x.isFinite with
  | true => exact Or.inl ⟨rfl, value_zero.2 ▸ (lt_iff value_zero.1 hx).mp h⟩
  | false =>
    rcases cases_of_not_isFinite hx with rfl | rfl | rfl
    · exact absurd h (by decide)
    · exact Or.inr rfl
    · exact absurd h (by decide)

/-- The infinity is below no finite double. -/
theorem not_infinity_le (hx : x.isFinite = true) : ¬infinity ≤ x := by
  have hinfinity : IsInfinity infinity := ⟨rfl, rfl, rfl⟩
  change ¬decide (((infinity.toModel.unpack.compare x.toModel.unpack).any
    Ordering.isLE) = true) = true
  rw [hinfinity.unpack_eq, unpack_of_isFinite hx, unpacked]
  split <;> cases sign x <;> exact Bool.false_ne_true

/-- Positive doubles are in the order of their values. -/
theorem le_iff_reach (hx : 0 < x) (hy : 0 < y) : x ≤ y ↔ reach x ≤ reach y := by
  have hinfinity : IsInfinity infinity := ⟨rfl, rfl, rfl⟩
  have htop : reach infinity = ⊤ := rfl
  rcases finite_or_eq_infinity hx with ⟨hfx, -⟩ | rfl <;>
    rcases finite_or_eq_infinity hy with ⟨hfy, -⟩ | rfl
  · rw [reach, reach, if_pos hfx, if_pos hfy, WithTop.coe_le_coe]
    exact le_iff hfx hfy
  · rw [htop]
    exact iff_of_true (hinfinity.le_of_isFinite hfx) le_top
  · rw [htop, top_le_iff, reach, if_pos hfy]
    exact iff_of_false (not_infinity_le hfy) (WithTop.coe_ne_top)
  · exact iff_of_true (by decide) le_rfl

/-- So are they in strict order. -/
theorem lt_iff_reach (hx : 0 < x) (hy : 0 < y) : x < y ↔ reach x < reach y := by
  have hinfinity : IsInfinity infinity := ⟨rfl, rfl, rfl⟩
  have htop : reach infinity = ⊤ := rfl
  rcases finite_or_eq_infinity hx with ⟨hfx, -⟩ | rfl
  · rcases finite_or_eq_infinity hy with ⟨hfy, -⟩ | rfl
    · rw [reach, reach, if_pos hfx, if_pos hfy, WithTop.coe_lt_coe]
      exact lt_iff hfx hfy
    · rw [htop, reach, if_pos hfx]
      exact iff_of_true (hinfinity.lt_of_isFinite hfx) (WithTop.coe_lt_top _)
  · rw [htop]
    exact iff_of_false (hinfinity.not_lt y) not_top_lt

/-- Positive doubles of one value are the same. -/
theorem eq_of_reach_eq (hx : 0 < x) (hy : 0 < y) (h : reach x = reach y) : x = y := by
  have htop : reach infinity = ⊤ := rfl
  rcases finite_or_eq_infinity hx with ⟨hfx, hpx⟩ | rfl <;>
    rcases finite_or_eq_infinity hy with ⟨hfy, hpy⟩ | rfl
  · rw [reach, reach, if_pos hfx, if_pos hfy, WithTop.coe_inj] at h
    have hrx := (roundsTo_value hfx).rounds hfx
    have hry := (roundsTo_value hfy).rounds hfy
    refine eq_of_sign ?_ (eq_of_rounds (canonical_ofFloat x) (canonical_ofFloat y) hrx (h ▸ hry))
    rw [(roundsTo_value hfx).positive hpx, (roundsTo_value hfy).positive hpy]
  · rw [htop, reach, if_pos hfx] at h
    exact absurd h WithTop.coe_ne_top
  · rw [htop, reach, if_pos hfy] at h
    exact absurd h WithTop.top_ne_coe
  · rfl

/-- The lesser of two positive doubles is one of them, and not above either. -/
theorem lesser_of_pos (hx : 0 < x) (hy : 0 < y) :
    (lesser x y = x ∨ lesser x y = y) ∧ reach (lesser x y) = min (reach x) (reach y) := by
  have hnan : x.isNaN = false := by
    rcases finite_or_eq_infinity hx with ⟨hfx, -⟩ | rfl
    · exact (isNaN_isInf_of_isFinite hfx).1
    · rfl
  rw [lesser, hnan, Bool.or_false]
  by_cases h : y < x
  · rw [if_pos (decide_eq_true h), min_eq_right ((lt_iff_reach hy hx).mp h).le]
    exact ⟨Or.inr rfl, rfl⟩
  · rw [if_neg (by simpa using h), min_eq_left (not_lt.mp (mt (lt_iff_reach hy hx).mpr h))]
    exact ⟨Or.inl rfl, rfl⟩

/-- It is positive. -/
theorem lesser_pos (hx : 0 < x) (hy : 0 < y) : 0 < lesser x y := by
  rcases (lesser_of_pos hx hy).1 with h | h <;> rwa [h]

/-- The least of positive doubles, taken one after the other, is one of them and not above any. -/
theorem foldl_lesser_of_pos {first : Float} (hfirst : 0 < first) {rest : List Float}
    (hrest : ∀ v ∈ rest, 0 < v) :
    rest.foldl lesser first ∈ first :: rest ∧
      ∀ v ∈ first :: rest, reach (rest.foldl lesser first) ≤ reach v := by
  induction rest generalizing first with
  | nil => simp
  | cons second rest ih =>
    have hsecond := hrest second List.mem_cons_self
    obtain ⟨hone, hreach⟩ := lesser_of_pos hfirst hsecond
    obtain ⟨hmem, hleast⟩ := ih (lesser_pos hfirst hsecond)
      fun v hv => hrest v (List.mem_cons_of_mem _ hv)
    have hbound := hleast _ List.mem_cons_self
    rw [hreach, le_min_iff] at hbound
    refine ⟨?_, ?_⟩
    · rw [List.foldl_cons]
      rcases List.mem_cons.mp hmem with hmem | hmem
      · rw [hmem]
        rcases hone with h | h <;> simp [h]
      · exact List.mem_cons_of_mem _ (List.mem_cons_of_mem _ hmem)
    · rw [List.forall_mem_cons, List.forall_mem_cons]
      exact ⟨hbound.1, hbound.2, fun v hv => hleast v (List.mem_cons_of_mem _ hv)⟩

/-- The same from the infinity on, which is not above any of them. -/
theorem foldl_lesser_infinity_of_pos {l : List Float} (hl : ∀ v ∈ l, 0 < v) (hne : l ≠ []) :
    l.foldl lesser infinity ∈ l ∧ ∀ v ∈ l, reach (l.foldl lesser infinity) ≤ reach v := by
  obtain ⟨first, rest, rfl⟩ := List.exists_cons_of_ne_nil hne
  have hfirst := hl first List.mem_cons_self
  have hinfinity : 0 < infinity := by decide
  have htop : reach first ≤ reach infinity := le_top
  have hstart : lesser infinity first = first :=
    eq_of_reach_eq (lesser_pos hinfinity hfirst) hfirst
      ((lesser_of_pos hinfinity hfirst).2.trans (min_eq_right htop))
  rw [List.foldl_cons, hstart]
  exact foldl_lesser_of_pos hfirst fun v hv => hl v (List.mem_cons_of_mem _ hv)

end Double

end CurvePlot
