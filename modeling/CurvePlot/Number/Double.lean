import CurvePlot.Number.Literal

/-!
# Reading doubles

A double is read from an optional sign and either a literal or the word `inf`, `infinity` or `nan`
in any case. Nothing else may stand in the text, not even a blank.
-/

namespace CurvePlot.Double

/-- The positive infinity. -/
def infinity : Float := Float.ofBits 0x7FF0000000000000

/-- The value that is not a number. -/
def nan : Float := Float.ofBits 0x7FF8000000000000

/-- The value behind the sign. -/
def readUnsigned? (text : List Char) : Option Float :=
  match Literal.scan? Text.isAsciiDigit text with
  | some (literal, []) => some literal.toFloat
  | some (_, _ :: _) => none
  | none =>
    let word := String.ofList (text.map Char.toLower)
    if word == "inf" || word == "infinity" then some infinity
    else if word == "nan" then some nan
    else none

/-- The double that the whole text writes. -/
def read? (text : List Char) : Option Float :=
  let (sign, rest) := splitSign text
  (readUnsigned? rest).map fun value => if sign == some '-' then -value else value

/-- A literal is read as its nearest double. -/
theorem readUnsigned?_of_scan? {text : List Char} {l : Literal}
    (h : Literal.scan? Text.isAsciiDigit text = some (l, [])) :
    readUnsigned? text = some l.toFloat := by
  simp [readUnsigned?, h]

/-- The lesser of two doubles: of equal ones the first, and NaN yields to a number. -/
def lesser (a b : Float) : Float :=
  if b < a || a.isNaN then b else a

/-- The greater of two doubles: of equal ones the first, and NaN yields to a number. -/
def greater (a b : Float) : Float :=
  if a < b || a.isNaN then b else a

end CurvePlot.Double
