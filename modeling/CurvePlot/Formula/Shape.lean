import CurvePlot.Formula.Family
import CurvePlot.Formula.Signs

/-!
# The shape of a formula

Before anything else the reader decides which grammar a formula is written in. A key of a family
before a colon selects the keyed grammar. Everything else is looked at without its blanks: behind
`y=` stands an explicit right side, any other equals sign makes an equation, and a range may follow
a colon.
-/

namespace CurvePlot

/-- A formula by its grammar. -/
inductive Shape where
  /-- `key:body` -/
  | keyed (family : Family) (body : List Char)
  /-- `word:…` where the word, in lower case, names no family. -/
  | unknownKey (key : List Char)
  /-- `y=right` with an optional range; the signs of the right side are joined. -/
  | explicit (right : List Char) (range : Option (List Char))
  /-- `left=right` with an optional range. -/
  | implicit (equation : List Char) (range : Option (List Char))
  /-- None of these. -/
  | unrecognized
deriving DecidableEq

namespace Shape

/-- Whether a text is a word of ASCII letters and underscores. -/
def isWord (text : List Char) : Bool :=
  !text.isEmpty && text.all fun c => Text.isAsciiLetter c || c == '_'

/-- The shape of a formula without blanks that no key opens. -/
def ofCompact (formula : List Char) : Shape :=
  let (body, range) := Text.cut ':' formula
  if Text.lower (body.take 2) == ['y', '='] then explicit (Signs.normalize (body.drop 2)) range
  else if body.contains '=' then implicit body range
  else unrecognized

/-- The shape of a formula. -/
def ofFormula (formula : List Char) : Shape :=
  let trimmed := Text.trim formula
  let compact := ofCompact (Text.compact trimmed)
  match Text.cut ':' trimmed with
  | (_, none) => compact
  | (head, some body) =>
    let key := Text.trim (Text.lower head)
    match Family.ofKey? (String.ofList key) with
    | some family => keyed family body
    | none => if isWord key then unknownKey key else compact

/-- Without a colon no key opens the formula. -/
theorem ofFormula_of_cut {formula head : List Char}
    (h : Text.cut ':' (Text.trim formula) = (head, none)) :
    ofFormula formula = ofCompact (Text.compact (Text.trim formula)) := by
  simp [ofFormula, h]

end Shape

end CurvePlot
