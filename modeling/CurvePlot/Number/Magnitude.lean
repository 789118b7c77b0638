/-!
# The exact value of a double

A finite double is a sign and a magnitude `significand · 2 ^ exponent`, both read off its bits. On
a magnitude the questions that need exact answers are asked in whole numbers: which integer is
nearest, and which decimals read back as this double.
-/

namespace CurvePlot

/-- The non-negative real `significand · 2 ^ exponent`, as a double holds it. -/
structure Magnitude where
  /-- The significand, below `2 ^ 53`. -/
  significand : Nat
  /-- The power of two of its unit in the last place. -/
  exponent : Int
  /-- Whether the gap to the next double below is half the gap to the next one above. -/
  narrowBelow : Bool
deriving DecidableEq, Repr

namespace Magnitude

/-- Whether the sign bit is set; it also is for the negative zero. -/
def isNegative (x : Float) : Bool :=
  x.toBits >>> 63 == 1

/-- The magnitude of a finite double. The infinities and NaN have none: ask for them first. -/
def ofFloat (x : Float) : Magnitude :=
  let biased := ((x.toBits >>> 52) &&& 0x7FF).toNat
  let fraction := (x.toBits &&& 0xFFFFFFFFFFFFF).toNat
  if biased == 0 then ⟨fraction, -1074, false⟩
  else ⟨0x10000000000000 + fraction, (biased : Int) - 1075, fraction == 0 && 1 < biased⟩

/-- The nearest natural number; a half goes up. -/
def round (m : Magnitude) : Nat :=
  if 0 ≤ m.exponent then m.significand * Nat.pow 2 m.exponent.toNat
  else (2 * m.significand + Nat.pow 2 (-m.exponent).toNat) / Nat.pow 2 ((-m.exponent).toNat + 1)

/-- The integer nearest to a finite double; a half goes away from zero. -/
def roundFloat (x : Float) : Int :=
  if isNegative x then -((ofFloat x).round : Int) else (ofFloat x).round

/-- An integer is its own nearest integer. -/
theorem round_of_exponent_nonneg {m : Magnitude} (h : 0 ≤ m.exponent) :
    m.round = m.significand * Nat.pow 2 m.exponent.toNat := by
  simp [round, h]

end Magnitude

end CurvePlot
