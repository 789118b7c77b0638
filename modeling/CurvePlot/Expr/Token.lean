import CurvePlot.Number.Literal

/-!
# Tokens of an expression

A token is a lexeme with the place where it stands. Places are counted in characters. The star of a
product that was left unwritten is a token like any other; its place is the gap between the two
factors.
-/

namespace CurvePlot

/-- A stretch of the source text, from `start` up to but without `stop`. -/
structure Span where
  /-- The first character. -/
  start : Nat
  /-- The character behind the last one. -/
  stop : Nat
deriving DecidableEq, Repr

/-- The least stretch that covers both. -/
def Span.hull (a b : Span) : Span :=
  ⟨min a.start b.start, max a.stop b.stop⟩

/-- What a token is. -/
inductive Lexeme where
  /-- An unsigned number. -/
  | number (literal : Literal)
  /-- A name: a row of letters and underscores. -/
  | name (text : String)
  /-- A plus sign. -/
  | plus
  /-- A minus sign. -/
  | minus
  /-- A multiplication sign, written or not. -/
  | star
  /-- A division sign. -/
  | slash
  /-- The sign of a power. -/
  | caret
  /-- An opening parenthesis. -/
  | opening
  /-- A closing parenthesis. -/
  | closing
  /-- A bar of an absolute value. -/
  | bar
  /-- The end of the source. -/
  | finish
deriving DecidableEq, Repr

/-- A lexeme and its place. -/
structure Token where
  /-- What stands there. -/
  lexeme : Lexeme
  /-- Where it stands. -/
  span : Span
deriving DecidableEq, Repr

/-- Whether an operand may end with the lexeme, so that a factor behind it multiplies. -/
def Lexeme.endsOperand : Lexeme → Bool
  | number _ | name _ | closing => true
  | _ => false

/-- Whether a factor may begin with the lexeme. -/
def Lexeme.beginsFactor : Lexeme → Bool
  | number _ | name _ | opening => true
  | _ => false

/-- A hull covers its first part. -/
theorem Span.hull_start_le_left (a b : Span) : (a.hull b).start ≤ a.start := Nat.min_le_left _ _

/-- A hull reaches as far as its second part. -/
theorem Span.right_stop_le_hull (a b : Span) : b.stop ≤ (a.hull b).stop := Nat.le_max_right _ _

end CurvePlot
