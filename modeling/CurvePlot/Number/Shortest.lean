import CurvePlot.Number.Literal
import CurvePlot.Number.Magnitude

/-!
# The fewest digits that read back

A decimal reads back as a double when it lies among the reals that round to that double: between
the midpoints to its two neighbours, ends included exactly when the significand is even. Among the
decimals with the fewest digits that read back, `Shortest.decimal` picks the one nearest to the
double. Of two equally near ones a tie rule decides.

The search looks at the grids of one, two, … seventeen digits in turn. On each grid only the two
points next to the value can be nearest, and all comparisons are made in natural numbers.
-/

namespace CurvePlot.Shortest

/-- What is done when two decimals of one length are equally near. -/
inductive Tie where
  /-- The one whose last digit is even. -/
  | even
  /-- The greater one. -/
  | up
deriving DecidableEq, Repr

/-- A value and the unit of a decimal grid, both scaled to natural numbers. The value is
`significand · unit`, a point of the grid is a multiple of `grid`. -/
structure Scaled where
  /-- One unit in the last place of the double. -/
  unit : Nat
  /-- The distance of two grid points. -/
  grid : Nat

/-- The magnitude against the grid `10 ^ place`. -/
def scaled (m : Magnitude) (place : Int) : Scaled where
  unit := Nat.pow 2 m.exponent.toNat * Nat.pow 10 (-place).toNat
  grid := Nat.pow 2 (-m.exponent).toNat * Nat.pow 10 place.toNat

/-- Whether the grid point `point` reads back as `m`. -/
def readsBack (m : Magnitude) (s : Scaled) (point : Nat) : Bool :=
  let low := (if m.narrowBelow then 4 * m.significand - 1 else 4 * m.significand - 2) * s.unit
  let high := (4 * m.significand + 2) * s.unit
  let value := 4 * (point * s.grid)
  if m.significand % 2 == 0 then low ≤ value && value ≤ high
  else low < value && value < high

/-- The nearest point of the grid that reads back, if one does. -/
def onGrid? (tie : Tie) (m : Magnitude) (place : Int) : Option Nat :=
  let s := scaled m place
  let below := m.significand * s.unit / s.grid
  match readsBack m s below, readsBack m s (below + 1) with
  | true, false => some below
  | false, true => some (below + 1)
  | false, false => none
  | true, true =>
    match compare (2 * (m.significand * s.unit)) ((2 * below + 1) * s.grid) with
    | .lt => some below
    | .gt => some (below + 1)
    | .eq => some (if tie == .even && below % 2 == 0 then below else below + 1)

/-- Whether the magnitude is below `10 ^ place`. -/
def isBelow (m : Magnitude) (place : Int) : Bool :=
  let s := scaled m place
  m.significand * s.unit < s.grid

/-- The number of digits before the point: the least `k` with the magnitude below `10 ^ k`. The
binary logarithm brackets it, three candidates remain. -/
def width (m : Magnitude) : Int :=
  let estimate := ((m.significand.log2 : Int) + m.exponent) * 30103 / 100000
  if isBelow m estimate then estimate
  else if isBelow m (estimate + 1) then estimate + 1
  else estimate + 2

/-- The decimal without trailing zeros in its significand. -/
def strip (n : Numeral) : Numeral :=
  if h : n.significand ≠ 0 ∧ n.significand % 10 = 0 then
    strip ⟨n.significand / 10, n.exponent + 1⟩
  else n
termination_by n.significand
decreasing_by exact Nat.div_lt_self (by omega) (by omega)

/-- The exact decimal value of a magnitude. -/
def exact (m : Magnitude) : Numeral :=
  if 0 ≤ m.exponent then ⟨m.significand * Nat.pow 2 m.exponent.toNat, 0⟩
  else ⟨m.significand * Nat.pow 5 (-m.exponent).toNat, m.exponent⟩

/-- The shortest decimal that reads back as the magnitude, the nearest one of that length. -/
def decimal (tie : Tie) (m : Magnitude) : Numeral :=
  if m.significand == 0 then ⟨0, 0⟩
  else
    let width := width m
    let found := (List.range 17).findSome? fun (i : Nat) =>
      let place := width - (i + 1)
      (onGrid? tie m place).map fun point => (⟨point, place⟩ : Numeral)
    strip (found.getD (exact m))

/-- A point chosen on a grid reads back. -/
theorem readsBack_of_onGrid? {tie : Tie} {m : Magnitude} {place : Int} {point : Nat}
    (h : onGrid? tie m place = some point) : readsBack m (scaled m place) point = true := by
  simp only [onGrid?] at h
  split at h
  · next hb _ => cases h; exact hb
  · next _ hb => cases h; exact hb
  · cases h
  · next hb ha =>
    split at h
    · cases h; exact hb
    · cases h; exact ha
    · split at h <;> cases h
      · exact hb
      · exact ha

end CurvePlot.Shortest
