import CurvePlot.Text.Digit

/-!
# Written numbers

A literal is a number as it is written: digits, an optional point with further digits, an optional
power of ten. A numeral is what it says: a natural significand times a power of ten. Literals
carry no sign; where a sign may stand in front, it belongs to what surrounds the number.

`Literal.scan?` takes the longest literal off the head of a text, for the class of digits that the
place allows. `Literal.text` writes a literal back, and `Literal.scan?_text` says that nothing is
lost: literal and rest make up the text again.
-/

namespace CurvePlot

/-- The sign at the head of a text, if there is one, and the rest of the text. -/
def splitSign : List Char → Option Char × List Char
  | [] => (none, [])
  | c :: rest => if c == '+' || c == '-' then (some c, rest) else (none, c :: rest)

/-- Sign and rest make up the text. -/
theorem splitSign_text (text : List Char) :
    (splitSign text).1.toList ++ (splitSign text).2 = text := by
  cases text with
  | nil => rfl
  | cons c rest => simp only [splitSign]; split <;> rfl

/-- The number `significand · 10 ^ exponent`. -/
structure Numeral where
  /-- The digits, read as one natural number. -/
  significand : Nat
  /-- The power of ten that scales them. -/
  exponent : Int
deriving DecidableEq, Repr

/-- The double nearest to a numeral, ties to even. Where the size alone makes it an infinity or
zero, the power of ten is not formed. -/
def Numeral.toFloat (n : Numeral) : Float :=
  let size : Int := n.significand.log2
  if n.significand == 0 then 0
  else if 0 ≤ n.exponent then
    if 1100 ≤ size + 3 * n.exponent then Float.ofBits 0x7FF0000000000000
    else Float.ofScientific n.significand false n.exponent.natAbs
  else
    if size + 1 + 3 * n.exponent ≤ -1100 then 0
    else Float.ofScientific n.significand true n.exponent.natAbs

/-- The power of ten of a literal: `e5`, `E+05`, `e-3`. -/
structure Literal.Power where
  /-- The letter that opens it, `e` or `E`. -/
  mark : Char
  /-- The sign, when one is written. -/
  sign : Option Char
  /-- The digits, at least one. -/
  digits : List Char
deriving DecidableEq, Repr

/-- A number as written, without sign. -/
structure Literal where
  /-- The digits before the point. -/
  whole : List Char
  /-- The digits after the point, when there is a point. -/
  fraction : Option (List Char)
  /-- The power of ten, when one is written. -/
  power : Option Literal.Power
deriving DecidableEq, Repr

namespace Literal

/-- The power of ten as written. -/
def Power.text (p : Power) : List Char :=
  p.mark :: (p.sign.toList ++ p.digits)

/-- The power of ten that is meant. -/
def Power.value (p : Power) : Int :=
  if p.sign == some '-' then -(Text.digitsValue p.digits : Int) else Text.digitsValue p.digits

/-- The point and the digits after it, as written. -/
def fractionText : Option (List Char) → List Char
  | some digits => '.' :: digits
  | none => []

/-- The optional power of ten, as written. -/
def powerText : Option Power → List Char
  | some p => p.text
  | none => []

/-- The literal as written. -/
def text (l : Literal) : List Char :=
  l.whole ++ (fractionText l.fraction ++ powerText l.power)

/-- The digits of the significand: those before the point and those after it. -/
def digits (l : Literal) : List Char :=
  l.whole ++ l.fraction.getD []

/-- The number that the literal writes, its digits being ASCII ones. -/
def numeral (l : Literal) : Numeral where
  significand := Text.digitsValue l.digits
  exponent := (l.power.map Power.value).getD 0 - ((l.fraction.getD []).length : Int)

/-- The double nearest to the literal. -/
def toFloat (l : Literal) : Float :=
  l.numeral.toFloat

/-- Whether every digit, also those of the power, is an ASCII digit. -/
def isPlain (l : Literal) : Bool :=
  l.digits.all Text.isAsciiDigit && ((l.power.map Power.digits).getD []).all Text.isAsciiDigit

/-- The power of ten at the head of a text: a mark, an optional sign and at least one digit.
Without a digit the mark is not part of a number. -/
def scanPower (digit : Char → Bool) : List Char → Option Power × List Char
  | [] => (none, [])
  | mark :: rest =>
    if mark == 'e' || mark == 'E' then
      let (sign, after) := splitSign rest
      if (after.takeWhile digit).isEmpty then (none, mark :: rest)
      else (some ⟨mark, sign, after.takeWhile digit⟩, after.dropWhile digit)
    else (none, mark :: rest)

/-- The digits and the point at the head of a text: digits with an optional point and further
digits, or a point and at least one digit. -/
def scanMantissa? (digit : Char → Bool) (text : List Char) :
    Option (List Char × Option (List Char) × List Char) :=
  let whole := text.takeWhile digit
  match text.dropWhile digit with
  | '.' :: rest =>
    let fraction := rest.takeWhile digit
    if whole.isEmpty && fraction.isEmpty then none
    else some (whole, some fraction, rest.dropWhile digit)
  | rest => if whole.isEmpty then none else some (whole, none, rest)

/-- The longest literal at the head of a text, and the rest of the text. -/
def scan? (digit : Char → Bool) (text : List Char) : Option (Literal × List Char) :=
  match scanMantissa? digit text with
  | none => none
  | some (whole, fraction, rest) =>
    some (⟨whole, fraction, (scanPower digit rest).1⟩, (scanPower digit rest).2)

/-- A power that is scanned off a text is the head of that text. -/
theorem scanPower_text (digit : Char → Bool) (text : List Char) :
    powerText (scanPower digit text).1 ++ (scanPower digit text).2 = text := by
  cases text with
  | nil => rfl
  | cons mark rest =>
    simp only [scanPower]
    split
    · split
      · rfl
      · have hs := splitSign_text rest
        have hd := List.takeWhile_append_dropWhile (p := digit) (l := (splitSign rest).2)
        simp only [powerText, Power.text, List.cons_append, List.append_assoc, hd, hs]
    · rfl

/-- A mantissa that is scanned has a digit, in front of the point or behind it, and all the digits
that stand there. -/
theorem scanMantissa?_eq_some {digit : Char → Bool} {text whole rest : List Char}
    {fraction : Option (List Char)}
    (h : scanMantissa? digit text = some (whole, fraction, rest)) :
    whole = text.takeWhile digit ∧ whole ++ fraction.getD [] ≠ [] ∧
      ((∃ behind, text.dropWhile digit = '.' :: behind ∧
          fraction = some (behind.takeWhile digit) ∧ rest = behind.dropWhile digit) ∨
        (fraction = none ∧ rest = text.dropWhile digit ∧ ∀ behind, rest ≠ '.' :: behind)) := by
  simp only [scanMantissa?] at h
  split at h
  · next behind hpoint =>
    split at h
    · cases h
    · next hne =>
      cases h
      exact ⟨rfl, by simpa using hne, Or.inl ⟨behind, hpoint, rfl, rfl⟩⟩
  · next hpoint =>
    split at h
    · cases h
    · next hne =>
      cases h
      exact ⟨rfl, by simpa using hne, Or.inr ⟨rfl, rfl, hpoint⟩⟩

/-- The mantissa that is scanned off a text is the head of that text. -/
theorem scanMantissa?_text {digit : Char → Bool} {text whole rest : List Char}
    {fraction : Option (List Char)}
    (h : scanMantissa? digit text = some (whole, fraction, rest)) :
    whole ++ (fractionText fraction ++ rest) = text := by
  obtain ⟨rfl, -, ⟨behind, hpoint, rfl, rfl⟩ | ⟨rfl, rfl, -⟩⟩ := scanMantissa?_eq_some h
  · rw [fractionText, List.cons_append, List.takeWhile_append_dropWhile, ← hpoint,
      List.takeWhile_append_dropWhile]
  · rw [fractionText, List.nil_append, List.takeWhile_append_dropWhile]

/-- What is scanned is the head of the text: literal and rest make up the text again. -/
theorem scan?_text {digit : Char → Bool} {text rest : List Char} {l : Literal}
    (h : scan? digit text = some (l, rest)) : l.text ++ rest = text := by
  unfold scan? at h
  split at h
  · simp at h
  · next whole fraction rest' hm =>
    simp only [Option.some.injEq, Prod.mk.injEq] at h
    obtain ⟨rfl, rfl⟩ := h
    rw [← scanMantissa?_text hm]
    simp only [Literal.text, List.append_assoc, scanPower_text]

end Literal

end CurvePlot
