import CurvePlot.Formula.Factor
import CurvePlot.Formula.Signs

/-!
# Sums of terms

A polynomial formula is a sum of terms in `x^2`, `x`, `y` and one. A normalized text is cut into
its terms at the signs that join them; a sign inside parentheses, after an operator, or in the power
of ten of a number does not. Each term is a factor with a symbol behind it, or a number alone.
`Terms.collect` adds up the factors of each symbol, from left to right, over any carrier.
-/

namespace CurvePlot

/-- What a term is a multiple of. -/
inductive Monomial where
  /-- The square of `x`. -/
  | square
  /-- The variable `x`. -/
  | x
  /-- The variable `y`. -/
  | y
  /-- The number one. -/
  | one
deriving DecidableEq, Repr

/-- The symbol behind the factor of a term. -/
def Monomial.symbol : Monomial → List Char
  | square => ['x', '^', '2']
  | x => ['x']
  | y => ['y']
  | one => []

/-- A term: a factor and what it multiplies. -/
structure Term where
  /-- The factor in front. -/
  factor : Factor
  /-- What it multiplies. -/
  monomial : Monomial
deriving DecidableEq, Repr

/-- The term as written. -/
def Term.text (t : Term) : List Char :=
  t.factor.text ++ t.monomial.symbol

namespace Terms

/-- Whether a sign behind `current`, the last character first, and before `rest` belongs to the
power of ten of a number. -/
def inPower (current rest : List Char) : Bool :=
  match current, rest with
  | mark :: digit :: _, next :: _ =>
    (mark == 'e' || mark == 'E') && Text.isAsciiDigit digit && Text.isAsciiDigit next
  | _, _ => false

/-- Whether a sign behind `current` and before `rest` joins two terms. -/
def joins (current rest : List Char) : Bool :=
  match current with
  | [] => false
  | last :: _ => !(last == '^' || last == '*' || last == '/') && !inPower current rest

/-- The change of nesting that a character makes. -/
def nesting : Char → Int
  | '(' => 1
  | ')' => -1
  | _ => 0

/-- The texts of the terms, where `depth` parentheses are open and `current` is what has been read
of the present term, the last character first. -/
def splitFrom (depth : Int) (current : List Char) : List Char → List (List Char)
  | [] => if current.isEmpty then [] else [current.reverse]
  | c :: rest =>
    if (c == '+' || c == '-') && depth == 0 && joins current rest then
      current.reverse :: splitFrom depth [c] rest
    else splitFrom (depth + nesting c) (c :: current) rest

/-- The texts of the terms of a normalized text, each with its sign. -/
def split (text : List Char) : List (List Char) :=
  splitFrom 0 [] text

/-- Nothing is lost in cutting. -/
theorem flatten_splitFrom (depth : Int) (current text : List Char) :
    (splitFrom depth current text).flatten = current.reverse ++ text := by
  induction text generalizing depth current with
  | nil =>
    unfold splitFrom
    split
    · next h => simp_all
    · simp
  | cons c rest ih =>
    unfold splitFrom
    split
    · simp [ih]
    · simp [ih]

/-- The terms make up the text. -/
theorem flatten_split (text : List Char) : (split text).flatten = text := by
  simp [split, flatten_splitFrom]

end Terms

/-- The term that a text writes, if it writes one. A number alone has to carry a value, and no star
stands behind it. -/
def Term.read? (text : List Char) : Option Term :=
  let (factor, symbol) := Factor.scan true text
  if symbol == Monomial.square.symbol then some ⟨factor, .square⟩
  else if symbol == Monomial.x.symbol then some ⟨factor, .x⟩
  else if symbol == Monomial.y.symbol then some ⟨factor, .y⟩
  else if symbol.isEmpty && !factor.star then
    match factor.literal with
    | some literal => if literal.isPlain then some ⟨factor, .one⟩ else none
    | none => none
  else none

/-- A term that is read is written like that. -/
theorem Term.text_of_read? {text : List Char} {t : Term} (h : Term.read? text = some t) :
    t.text = text := by
  have key := Factor.scan_text true text
  simp only [Term.read?] at h
  generalize Factor.scan true text = scanned at h key
  obtain ⟨factor, symbol⟩ := scanned
  simp only at h key
  split at h
  · next hs => cases h; rw [← key, beq_iff_eq.1 hs]; rfl
  · split at h
    · next hs => cases h; rw [← key, beq_iff_eq.1 hs]; rfl
    · split at h
      · next hs => cases h; rw [← key, beq_iff_eq.1 hs]; rfl
      · split at h
        · next hs =>
          have hn : symbol = [] := List.isEmpty_iff.1 (Bool.and_eq_true_iff.1 hs).1
          split at h
          · split at h
            · cases h; rw [← key, hn]; rfl
            · cases h
          · cases h
        · cases h

/-- Why a text is no sum of terms. -/
inductive TermError where
  /-- There is no term. -/
  | empty
  /-- A term of another kind. -/
  | unsupported (term : String)
deriving DecidableEq, Repr

/-- The text of the error. -/
def TermError.message : TermError → String
  | empty => "empty expression"
  | unsupported term => "unsupported term '" ++ term ++ "'"

/-- The sums of the factors of each symbol. -/
structure Terms (α : Type) where
  /-- The factor of `x^2`. -/
  square : α
  /-- The factor of `x`. -/
  x : α
  /-- The factor of `y`. -/
  y : α
  /-- The constant. -/
  constant : α
deriving DecidableEq

namespace Terms

variable {α : Type} [Scalar α]

/-- The empty sum. -/
def zero : Terms α := ⟨Scalar.zero, Scalar.zero, Scalar.zero, Scalar.zero⟩

/-- The sum with one more term. -/
def add (sums : Terms α) (t : Term) : Terms α :=
  match t.monomial with
  | .square => { sums with square := sums.square + t.factor.value }
  | .x => { sums with x := sums.x + t.factor.value }
  | .y => { sums with y := sums.y + t.factor.value }
  | .one => { sums with constant := sums.constant + t.factor.value }

/-- The factors of one side less those of the other. -/
def minus (left right : Terms α) : Terms α :=
  ⟨left.square - right.square, left.x - right.x, left.y - right.y,
    left.constant - right.constant⟩

/-- The terms that the texts write, or the first text that writes none. -/
def readAll : List (List Char) → Except TermError (List Term)
  | [] => .ok []
  | text :: rest =>
    match Term.read? text with
    | none => .error (.unsupported (String.ofList text))
    | some term => (readAll rest).map (term :: ·)

/-- The terms of a text; there has to be one. -/
def read (text : List Char) : Except TermError (List Term) :=
  let texts := split (Signs.normalize text)
  if texts.isEmpty then .error .empty else readAll texts

/-- The sums of the terms of a text. -/
def collect (text : List Char) : Except TermError (Terms α) :=
  (read text).map fun terms => terms.foldl add zero

end Terms

/-- A polynomial `a·x² + b·x + c`. -/
structure Quadratic (α : Type) where
  /-- The factor of the square. -/
  a : α
  /-- The factor of the variable. -/
  b : α
  /-- The constant. -/
  c : α
deriving DecidableEq

/-- Why an equation has no solution for `y`. -/
inductive EquationError where
  /-- The left side is no sum of terms. -/
  | left (error : TermError)
  /-- The right side is no sum of terms. -/
  | right (error : TermError)
  /-- The two sides have the same multiple of `y`. -/
  | noY
deriving DecidableEq, Repr

/-- The text of the error. -/
def EquationError.message : EquationError → String
  | left error => "left side: " ++ error.message
  | right error => "right side: " ++ error.message
  | noY => "equation has no y term to solve for"

namespace Terms

variable {α : Type} [Scalar α]

/-- The `y` for which the sums are zero, as a polynomial in `x`. The zero added last turns a
negative zero into the positive one. -/
def solve (sums : Terms α) : Quadratic α :=
  ⟨-sums.square / sums.y + Scalar.zero, -sums.x / sums.y + Scalar.zero,
    -sums.constant / sums.y + Scalar.zero⟩

/-- The equation of two sums of terms solved for `y`. -/
def solveEquation [BEq α] (left right : List Char) : Except EquationError (Quadratic α) :=
  match collect left with
  | .error e => .error (.left e)
  | .ok l =>
    match collect right with
    | .error e => .error (.right e)
    | .ok r => if (minus l r).y == Scalar.zero then .error .noY else .ok (minus l r).solve

end Terms

end CurvePlot
