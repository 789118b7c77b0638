import CurvePlot.Formula.Error
import CurvePlot.Formula.Shape
import CurvePlot.Formula.Values

/-!
# Reading formulas

`ReadingRules.read` turns a formula into a plot: a curve with the domain it is drawn over. The
keyed grammar takes the parameters from a list. The explicit grammar looks for a power of `e`, then
for a logarithm, then for a sum of terms, and takes anything else as an expression. An equation is
solved for `y`.

The readers of powers of `e` and of sums of terms work over any carrier, so that what they read can
be compared with the expression of the same text over the real numbers.
-/

namespace CurvePlot

/-- A curve with the domain it is drawn over. -/
structure Plot where
  /-- The curve. -/
  curve : Curve Float
  /-- Its domain. -/
  domain : Domain
  /-- The formula that it was read from, without outer blanks. -/
  source : String
deriving DecidableEq

namespace Plot

/-- The family of the plot's curve. -/
def family (p : Plot) : Family := p.curve.family

/-- The text of the expression, for a plot of one. -/
def expressionText? (p : Plot) : Option String :=
  match p.curve with
  | .expression e => some e.source
  | _ => none

/-- The plot of a family with default parameters over its default domain. -/
def standard? (family : Family) : Option Plot :=
  (Curve.ofValues? family []).map fun curve => ⟨curve, family.defaultDomain, family.name ++ ":"⟩

end Plot

/-- The letters that announce a power of `e`, in lower case. -/
def exponentialMark : List Char := ['e', '^']

/-- The letters that announce a logarithm. -/
def logarithmMark : List Char := ['l', 'o', 'g', '(']

/-- The exponent of a power of `e`: parentheses around all of it are left away. -/
def openExponent? (power : List Char) : Option (List Char) :=
  match power with
  | '(' :: inner => if inner.getLast? == some ')' then some inner.dropLast else none
  | _ => some power

/-- The curve of `a*e^(bx)`, either factor being optional. -/
def readExponential {α : Type} [Scalar α] (right : List Char) : Except FormulaFault (Curve α) :=
  match Text.position exponentialMark (Text.lower right) with
  | none => .error .exponentialForm
  | some at_ =>
    let (front, behind) := Factor.scan false (right.take at_)
    match behind, openExponent? (right.drop (at_ + exponentialMark.length)) with
    | [], some power =>
      let (factor, symbol) := Factor.scan false power
      if symbol == ['x'] then .ok (.exponential front.value factor.value)
      else .error .exponentialForm
    | _, _ => .error .exponentialForm

/-- A logarithm as written: what stands before it, between its parentheses, and behind it. -/
structure WrittenLogarithm where
  /-- The factor in front. -/
  factor : Factor
  /-- What stands between the parentheses. -/
  arguments : List Char
  /-- The summand behind: a sign and a number. -/
  offset : Option Factor
deriving DecidableEq

/-- The summand behind a logarithm, which takes the whole text; an empty text is none. -/
def readOffset? (text : List Char) : Option (Option Factor) :=
  if text.isEmpty then some none
  else
    let (factor, rest) := Factor.scan false text
    if factor.sign.isSome && factor.literal.isSome && !factor.star && rest.isEmpty then
      some (some factor)
    else none

/-- The logarithm that a whole text writes. -/
def readLogarithmForm? (right : List Char) : Option WrittenLogarithm :=
  let (factor, call) := Factor.scan false right
  if logarithmMark.isPrefixOf call then
    let inner := call.drop logarithmMark.length
    match inner.dropWhile fun c => c != '(' && c != ')' with
    | ')' :: rest =>
      (readOffset? rest).map fun offset =>
        ⟨factor, inner.takeWhile fun c => c != '(' && c != ')', offset⟩
    | _ => none
  else none

/-- Whether nothing stands beside the logarithm. -/
def WrittenLogarithm.isBare (l : WrittenLogarithm) : Bool :=
  l.factor.sign.isNone && l.factor.literal.isNone && l.offset.isNone

/-- The value of the summand behind a logarithm; a number without a value counts as zero. -/
def WrittenLogarithm.offsetValue {α : Type} [Scalar α] (l : WrittenLogarithm) : α :=
  match l.offset with
  | some ⟨sign, some literal, _⟩ =>
    if literal.isPlain then Factor.signed sign (Scalar.ofNumeral literal.numeral) else Scalar.zero
  | _ => Scalar.zero

/-- The curve of `a*log(x)+b` or of `log(a,b)`. -/
def readLogarithm (rules : ReadingRules) (right : List Char) :
    Except FormulaFault (Curve Float) :=
  match readLogarithmForm? right with
  | none => .error .logarithmForm
  | some written =>
    if Text.trim written.arguments == ['x'] then
      .ok (.logarithmic written.factor.value written.offsetValue)
    else if !written.isBare then .error .decoratedLogarithm
    else
      let values := readValues rules (Text.trim written.arguments)
      .ok ((Curve.ofValues? .logarithmic values).getD (.logarithmic 1 0))

/-- The curve of a sum of terms, or none when the text is to be taken as an expression. -/
def readPolynomial {α : Type} [Scalar α] [BEq α] (right : List Char) :
    Except FormulaFault (Option (Curve α)) :=
  if !Text.contains Monomial.square.symbol right then
    match Terms.collect (α := α) right with
    | .ok terms =>
      if terms.square == Scalar.zero then
        if terms.y == Scalar.zero then .ok (some (.linear terms.x terms.constant))
        else
          match Terms.solveEquation (α := α) Monomial.y.symbol right with
          | .ok q => .ok (some (.linear q.b q.c))
          | .error e => .error (.equation e)
      else .ok none
    | .error (.unsupported _) => .ok none
    | .error .empty => .error (.terms .empty)
  else if right.contains 'y' then
    match Terms.solveEquation (α := α) Monomial.y.symbol right with
    | .ok q => .ok (some (.quadratic q.a q.b q.c))
    | .error e => .error (.equation e)
  else
    match Terms.collect (α := α) right with
    | .ok terms => .ok (some (.quadratic terms.square terms.x terms.constant))
    | .error (.unsupported _) => .ok none
    | .error .empty => .error (.terms .empty)

/-- The curve of an equation solved for `y`. -/
def readEquation {α : Type} [Scalar α] [BEq α] (equation : List Char) :
    Except FormulaFault (Curve α) :=
  match Text.pieces '=' equation with
  | [left, right] =>
    match Terms.solveEquation (α := α) left right with
    | .ok q => .ok (.quadratic q.a q.b q.c)
    | .error e => .error (.equation e)
  | _ => .error .equalsSigns

/-- The polynomial in `x` alone that a text writes. -/
def readQuadratic {α : Type} [Scalar α] [BEq α] (text : List Char) :
    Except FormulaFault (Quadratic α) :=
  match Terms.collect (α := α) text with
  | .error e => .error (.terms e)
  | .ok terms =>
    if terms.y == Scalar.zero then .ok ⟨terms.square, terms.x, terms.constant⟩
    else .error .unexpectedY

/-- The curve of an expression. -/
def readExpression (text : List Char) : Except FormulaFault (Curve Float) :=
  match Expression.ofText text with
  | .ok e => .ok (.expression e)
  | .error e => .error (.expression e)

/-- The curve of the right side of `y=`. -/
def readExplicit (rules : ReadingRules) (right : List Char) : Except FormulaFault (Curve Float) :=
  if Text.contains exponentialMark (Text.lower right) then readExponential right
  else if Text.contains logarithmMark (Text.lower right) then readLogarithm rules right
  else
    match readPolynomial right with
    | .ok (some curve) => .ok curve
    | .ok none => readExpression right
    | .error e => .error e

namespace ReadingRules

/-- The range that a text names, if there is a text. -/
def rangesOf (rules : ReadingRules) (range : Option (List Char)) : List PartialRange :=
  (range.map fun text => PartialRange.ofValues (readValues rules text)).toList

/-- The curve and the ranges of a keyed formula: values beyond the parameters name a range, and so
does what follows a second colon. -/
def readKeyed (rules : ReadingRules) (family : Family) (body : List Char) :
    Except FormulaFault (Curve Float × List PartialRange) :=
  let (first, second) := Text.cut ':' body
  if family == .expression then
    let source := Text.trim first
    if source.isEmpty then .error .missingExpression
    else (readExpression source).map fun curve => (curve, rules.rangesOf second)
  else
    let values := readValues rules first
    let parameters := values.take family.parameterCount
    let inner := PartialRange.ofValues (values.drop family.parameterCount)
    match Curve.ofValues? family parameters with
    | some curve => .ok (curve, inner :: rules.rangesOf second)
    | none => .error .missingExpression

/-- The curve and the ranges of a formula. -/
def readShape (rules : ReadingRules) : Shape → Except FormulaFault (Curve Float × List PartialRange)
  | .keyed family body => rules.readKeyed family body
  | .unknownKey key => .error (.unknownKey (String.ofList key))
  | .explicit right range =>
    (readExplicit rules right).map fun curve => (curve, rules.rangesOf range)
  | .implicit equation range =>
    (readEquation equation).map fun curve => (curve, rules.rangesOf range)
  | .unrecognized => .error .unrecognized

/-- The domain of a curve: the family's, overlaid with the agreed range unless it holds angles, then
with the ranges of the formula in order, and normalized at last. -/
def domainOf (rules : ReadingRules) (family : Family) (ranges : List PartialRange) : Domain :=
  let agreed := if family.isAngular then [] else rules.defaultRange.toList
  let given := (agreed ++ ranges).foldl Domain.overridden family.defaultDomain
  given.normalized family rules.maxSamples

/-- The plot that a formula describes. -/
def read (rules : ReadingRules) (formula : String) : Except FormulaError Plot :=
  match rules.readShape (Shape.ofFormula formula.toList) with
  | .error fault => .error ⟨fault, formula⟩
  | .ok (curve, ranges) =>
    .ok ⟨curve, rules.domainOf curve.family ranges, String.ofList (Text.trim formula.toList)⟩

/-- A plot bears its formula without outer blanks. -/
theorem source_of_read {rules : ReadingRules} {formula : String} {p : Plot}
    (h : rules.read formula = .ok p) : p.source = String.ofList (Text.trim formula.toList) := by
  unfold read at h
  split at h
  · cases h
  · cases h; rfl

/-- A refusal quotes the formula. -/
theorem formula_of_read {rules : ReadingRules} {formula : String} {e : FormulaError}
    (h : rules.read formula = .error e) : e.formula = formula := by
  unfold read at h
  split at h
  · cases h; rfl
  · cases h

end ReadingRules

end CurvePlot
