import CurvePlot.Number.Scalar

/-!
# Written factors

In front of a symbol stands a factor: an optional sign, an optional literal, an optional star. A
factor without a literal is one. Its digits may be decimal digits of any script; a literal with
other than ASCII digits carries no value and counts as one, too.
-/

namespace CurvePlot

/-- What is written in front of a symbol. -/
structure Factor where
  /-- The sign, when one is written. -/
  sign : Option Char
  /-- The number, when one is written. -/
  literal : Option Literal
  /-- Whether a star stands between number and symbol. -/
  star : Bool
deriving DecidableEq, Repr

namespace Factor

/-- The optional number, as written. -/
def literalText : Option Literal → List Char
  | some literal => literal.text
  | none => []

/-- The optional star, as written. -/
def starText : Bool → List Char
  | true => ['*']
  | false => []

/-- The factor as written. -/
def text (f : Factor) : List Char :=
  f.sign.toList ++ (literalText f.literal ++ starText f.star)

/-- A value with the sign of the factor. -/
def signed {α : Type} [Neg α] (sign : Option Char) (magnitude : α) : α :=
  if sign == some '-' then -magnitude else magnitude

/-- The magnitude of the literal, one without a literal that has a value. -/
def magnitude {α : Type} [Scalar α] (f : Factor) : α :=
  match f.literal with
  | some literal => if literal.isPlain then Scalar.ofNumeral literal.numeral else Scalar.one
  | none => Scalar.one

/-- The factor's value. -/
def value {α : Type} [Scalar α] (f : Factor) : α :=
  signed f.sign f.magnitude

/-- The star at the head of a text, and the rest. -/
def splitStar : List Char → Bool × List Char
  | '*' :: rest => (true, rest)
  | text => (false, text)

/-- The number at the head of a text; `powers` says whether it may have a power of ten. -/
def scanLiteral (powers : Bool) (text : List Char) : Option Literal × List Char :=
  if powers then
    match Literal.scan? Text.isDecimalDigit text with
    | some (literal, rest) => (some literal, rest)
    | none => (none, text)
  else
    match Literal.scanMantissa? Text.isDecimalDigit text with
    | some (whole, fraction, rest) => (some ⟨whole, fraction, none⟩, rest)
    | none => (none, text)

/-- The factor at the head of a text, and the rest of the text. -/
def scan (powers : Bool) (text : List Char) : Factor × List Char :=
  let (sign, unsigned) := splitSign text
  let (literal, behind) := scanLiteral powers unsigned
  let (star, rest) := splitStar behind
  (⟨sign, literal, star⟩, rest)

/-- Star and rest make up the text. -/
theorem splitStar_text (text : List Char) :
    starText (splitStar text).1 ++ (splitStar text).2 = text := by
  unfold splitStar
  split <;> rfl

/-- Number and rest make up the text. -/
theorem scanLiteral_text (powers : Bool) (text : List Char) :
    literalText (scanLiteral powers text).1 ++ (scanLiteral powers text).2 = text := by
  unfold scanLiteral
  split
  · split
    · next h => exact Literal.scan?_text h
    · rfl
  · split
    · next h =>
      simpa [literalText, Literal.text, Literal.powerText] using Literal.scanMantissa?_text h
    · rfl

/-- Factor and rest make up the text. -/
theorem scan_text (powers : Bool) (text : List Char) :
    (scan powers text).1.text ++ (scan powers text).2 = text := by
  simp only [scan, Factor.text, List.append_assoc, splitStar_text, scanLiteral_text,
    splitSign_text]

end Factor

end CurvePlot
