import CurvePlot.Number.Shortest

/-!
# How a double is spelt

Which digits stand for a double is settled by `Shortest`; how they are laid out differs from one
output to the next. A `Spelling` holds all decisions of one output, and `Spelling.write` follows
them. The decimal exponent of a number is that of its leading digit.
-/

namespace CurvePlot

/-- The layout decisions of one kind of number text. -/
structure Spelling where
  /-- Whether a number with this decimal exponent is written without a power of ten. -/
  positional : Int → Bool
  /-- Whether an integer without a power of ten ends in `.0`. -/
  pointZero : Bool
  /-- Whether a positive power of ten carries a plus sign. -/
  plus : Bool
  /-- Which of two equally near decimals is taken. -/
  tie : Shortest.Tie
  /-- The text of NaN. -/
  nan : String
  /-- The text of the positive infinity. -/
  infinity : String

namespace Spelling

/-- A row of zeros. -/
def zeros (count : Int) : String :=
  String.ofList (List.replicate count.toNat '0')

/-- A decimal without a power of ten. -/
def plain (s : Spelling) (digits : List Char) (lead : Int) : String :=
  if lead < 0 then "0." ++ zeros (-lead - 1) ++ String.ofList digits
  else
    let before := lead.toNat + 1
    if digits.length ≤ before then
      String.ofList digits ++ zeros (before - digits.length) ++ (if s.pointZero then ".0" else "")
    else
      String.ofList (digits.take before) ++ "." ++ String.ofList (digits.drop before)

/-- A decimal with a power of ten: one digit before the point, and no point behind a lone digit. -/
def scientific (s : Spelling) (digits : List Char) (lead : Int) : String :=
  let fraction := digits.drop 1
  String.ofList (digits.take 1) ++
    (if fraction.isEmpty then "" else "." ++ String.ofList fraction) ++
    "e" ++ (if s.plus && 0 ≤ lead then "+" else "") ++ toString lead

/-- A decimal in this spelling. -/
def writeDecimal (s : Spelling) (n : Numeral) : String :=
  let digits := Nat.toDigits 10 n.significand
  let lead : Int := (digits.length : Int) - 1 + n.exponent
  if s.positional lead then s.plain digits lead else s.scientific digits lead

/-- A double in this spelling. -/
def write (s : Spelling) (x : Float) : String :=
  if x.isNaN then s.nan
  else
    (if Magnitude.isNegative x then "-" else "") ++
      (if x.isInf then s.infinity
       else s.writeDecimal (Shortest.decimal s.tie (Magnitude.ofFloat x)))

/-- Numbers in messages: never a power of ten, and an integer without a point. -/
def message : Spelling where
  positional := fun _ => true
  pointZero := false
  plus := false
  tie := .up
  nan := "NaN"
  infinity := "inf"

end Spelling

end CurvePlot
