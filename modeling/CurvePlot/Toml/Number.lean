import CurvePlot.Number.Double
import CurvePlot.Number.Spelling
import CurvePlot.Text.Hex
import CurvePlot.Text.Reader
import CurvePlot.Toml.Value

/-!
# Numbers in TOML documents

Digits may be grouped by single underscores between two of them. An integer is decimal, with an
optional sign and no idle zero in front, or it opens with `0x`, `0o` or `0b` and has no sign; it must
fit into 64 bits. A decimal number with a fraction or a power of ten is a double, and so are `inf`
and `nan` with an optional sign. A number without a minus sign that is too great for a double is
refused.
-/

namespace CurvePlot.Toml

open CurvePlot.Text

/-- A further digit of a row, which an underscore may precede. -/
def furtherDigit (digit : Char → Bool) : Reader Char
  | '_' :: c :: rest => if digit c then some (c, rest) else none
  | c :: rest => if digit c then some (c, rest) else none
  | [] => none

/-- A row of digits without its underscores. -/
def readDigits (digit : Char → Bool) : Reader (List Char)
  | [] => none
  | c :: rest =>
    if digit c then
      let (digits, after) := Reader.repeated (furtherDigit digit) rest
      some (c :: digits, after)
    else none

/-- The digits of a decimal integer: a lone zero, or a row that does not open with a zero. -/
def readWhole (text : List Char) : Option (List Char × List Char) :=
  match text with
  | '0' :: rest => some (['0'], rest)
  | _ => readDigits isAsciiDigit text

/-- Whether an integer fits into 64 bits. -/
def fitsWord (n : Int) : Bool :=
  -0x8000000000000000 ≤ n && n < 0x8000000000000000

/-- The value of a row of digits in a base. -/
def valueInBase (base : Nat) (digits : List Char) : Nat :=
  digits.foldl (fun value c => value * base + (hexValue? c).getD 0) 0

/-- Whether a character is a digit in a base. -/
def isDigitInBase (base : Nat) (c : Char) : Bool :=
  match hexValue? c with
  | some value => value < base
  | none => false

/-- The digits of an integer in a base other than ten. -/
def readInBase (base : Nat) (text : List Char) : Option (Int × List Char) :=
  (readDigits (isDigitInBase base) text).map fun (digits, rest) =>
    ((valueInBase base digits : Int), rest)

/-- An integer without its sign, where it is a decimal one. -/
def readDecimal (text : List Char) : Option (Int × List Char) :=
  let (sign, rest) := splitSign text
  (readWhole rest).map fun (digits, after) =>
    let value : Int := digitsValue digits
    (if sign == some '-' then -value else value, after)

/-- An integer. -/
def readInteger (text : List Char) : Option (Int × List Char) :=
  let found := match text with
    | '0' :: 'x' :: rest => readInBase 16 rest
    | '0' :: 'o' :: rest => readInBase 8 rest
    | '0' :: 'b' :: rest => readInBase 2 rest
    | _ => readDecimal text
  found.filter fun (value, _) => fitsWord value

/-- The fraction of a number, with its point and without its underscores. -/
def readFraction : Reader (List Char)
  | '.' :: rest => (readDigits isAsciiDigit rest).map fun (digits, after) => ('.' :: digits, after)
  | _ => none

/-- The power of ten of a number, without its underscores. -/
def readPower : Reader (List Char)
  | [] => none
  | mark :: rest =>
    if mark == 'e' || mark == 'E' then
      let (sign, behind) := splitSign rest
      (readDigits isAsciiDigit behind).map fun (digits, after) =>
        (mark :: (sign.toList ++ digits), after)
    else none

/-- The fraction and the power of ten of a number, one of which must be there. -/
def readScale (text : List Char) : Option (List Char × List Char) :=
  match readFraction text with
  | some (fraction, rest) =>
    let (power, after) := Reader.optional readPower rest
    some (fraction ++ power.getD [], after)
  | none => readPower text

/-- A double with a fraction or a power of ten. -/
def readScaled (text : List Char) : Option (Float × List Char) := do
  let (sign, behind) := splitSign text
  let (whole, rest) ← readWhole behind
  let (scale, after) ← readScale rest
  let value ← Double.read? (sign.toList ++ (whole ++ scale))
  if value.isInf && value > 0 then none else some (value, after)

/-- A double that is a word: `inf` or `nan`. -/
def readWord (text : List Char) : Option (Float × List Char) :=
  let (sign, behind) := splitSign text
  let signed (value : Float) : Float := if sign == some '-' then -value else value
  match behind with
  | 'i' :: 'n' :: 'f' :: rest => some (signed Double.infinity, rest)
  | 'n' :: 'a' :: 'n' :: rest => some (signed Double.nan, rest)
  | _ => none

/-- A number. -/
def readNumber (text : List Char) : Option (TomlValue × List Char) :=
  match readScaled text with
  | some (value, rest) => some (.float value, rest)
  | none =>
    match readWord text with
    | some (value, rest) => some (.float value, rest)
    | none => (readInteger text).map fun (value, rest) => (.integer value, rest)

/-- Doubles in TOML documents: no power of ten, and always a point. -/
def numbers : Spelling where
  positional := fun _ => true
  pointZero := true
  plus := false
  tie := .up
  nan := "nan"
  infinity := "inf"

/-- The text of a double. -/
def writeFloat (x : Float) : String :=
  numbers.write x

end CurvePlot.Toml
