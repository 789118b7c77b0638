import CurvePlot.Expr.Scan
import CurvePlot.Expr.Tree

/-!
# From tokens to trees

Operators bind by precedence. Each has a strength towards its left and its right operand, and the
operators found while an operand of strength `least` is read belong to it as long as their left
strength is not less. Sums and differences are weakest, then products and quotients, then the
signs in front of an operand, then powers. A power is stronger to its left than to its right, so
that powers group to the right and all else to the left.

Operators, parentheses, bars and calls may nest `nestingLimit` deep. A chain of operators of one
strength deepens the tree by one level per operator, so chain and nesting share one limit. Its
remainder, the *room*, falls with every level: this is why the reader ends.
-/

namespace CurvePlot

/-- The deepest nesting of operators, parentheses, bars and calls. -/
def nestingLimit : Nat := 256

/-- An operator's strength towards its left and its right operand. -/
def Operator.strengths : Operator → Nat × Nat
  | add | sub => (9, 10)
  | mul | div => (11, 12)
  | pow => (16, 15)

/-- The strength of a sign towards its operand. -/
def signStrength : Nat := 13

/-- The operator that a lexeme is between two operands. -/
def Lexeme.operator? : Lexeme → Option Operator
  | plus => some .add
  | minus => some .sub
  | star => some .mul
  | slash => some .div
  | caret => some .pow
  | _ => none

namespace Expr

/-- A tree and the tokens behind it, or a refusal. -/
abbrev Reading := Except ReadError (Expr Numeral × List Token)

/-- The token in front; a list without one counts as the end of an empty source. -/
def peek (tokens : List Token) : Token :=
  tokens.head?.getD ⟨.finish, ⟨0, 0⟩⟩

/-- A refusal at a token. -/
def refuse {β : Type} (cause : Malformed) (token : Token) : Except ReadError β :=
  .error ⟨cause, some token.span⟩

/-- One certain lexeme and the tokens behind it. -/
def expect (lexeme : Lexeme) (tokens : List Token) : Except ReadError (Token × List Token) :=
  if (peek tokens).lexeme == lexeme then .ok (peek tokens, tokens.tail)
  else refuse (.mismatch lexeme (peek tokens).lexeme) (peek tokens)

/-- A name and, for a function, its argument. The variable is looked up first, then the functions,
then the constants. `inner` reads an expression of a given least strength. -/
def readName (inner : Nat → List Token → Reading) (variableName : String) (name : String)
    (token : Token) (tokens : List Token) : Reading :=
  if name == variableName then .ok (.var token.span, tokens)
  else
    match NamedFunction.ofName? name, NamedConstant.ofName? name with
    | some function, _ =>
      if (peek tokens).lexeme == .opening then do
        let (argument, tokens) ← inner 0 tokens.tail
        if (peek tokens).lexeme == .closing then
          .ok (.call function argument (token.span.hull (peek tokens).span), tokens.tail)
        else refuse (.argumentCount function) (peek tokens)
      else refuse (.uncalled name) token
    | none, some named => .ok (.constant named token.span, tokens)
    | none, none => refuse (.unknownName name) token

/-- What stands in front of the first operator: a number, a name, a call, something in parentheses
or bars, or an operand with its sign. -/
def readOperand (inner : Nat → List Token → Reading) (variableName : String) (tokens : List Token) :
    Reading :=
  let token := peek tokens
  match token.lexeme with
  | .number literal => .ok (.number literal.numeral token.span, tokens.tail)
  | .name name => readName inner variableName name token tokens.tail
  | .opening => do
    let (e, tokens) ← inner 0 tokens.tail
    let (_, tokens) ← expect .closing tokens
    .ok (e, tokens)
  | .bar => do
    let (e, tokens) ← inner 0 tokens.tail
    let (close, tokens) ← expect .bar tokens
    .ok (.call .abs e (token.span.hull close.span), tokens)
  | .minus => do
    let (e, tokens) ← inner signStrength tokens.tail
    .ok (.negation e (token.span.hull e.span), tokens)
  | .plus => inner signStrength tokens.tail
  | found => refuse (.noOperand found) token

/-- The operators behind an operand, as far as they are at least as strong as `least`. The tree
may grow by `room` levels. -/
def readOperators (inner : Nat → List Token → Reading) (least : Nat) :
    (room : Nat) → (left : Expr Numeral) → List Token → Reading
  | room, left, tokens =>
    match (peek tokens).lexeme.operator? with
    | none => .ok (left, tokens)
    | some operator =>
      if operator.strengths.1 < least then .ok (left, tokens)
      else
        match room with
        | 0 => refuse .nestedTooDeeply (peek tokens)
        | room + 1 => do
          let (right, rest) ← inner operator.strengths.2 tokens.tail
          readOperators inner least room
            (.binary operator left right (left.span.hull right.span)) rest
termination_by structural room => room

/-- An expression whose operators are at least as strong as `least`, where `room` levels of nesting
are left. -/
def read (variableName : String) : (room : Nat) → (least : Nat) → List Token → Reading
  | 0, _, tokens => refuse .nestedTooDeeply (peek tokens)
  | room + 1, least, tokens => do
    let (left, rest) ← readOperand (read variableName room) variableName tokens
    readOperators (read variableName room) least room left rest

/-- The tree of a complete list of tokens, the last of which is the end of the source. -/
def ofTokens (variableName : String) (tokens : List Token) : Except ReadError (Expr Numeral) :=
  if (peek tokens).lexeme == .finish then .error ⟨.empty, none⟩
  else do
    let (e, rest) ← read variableName nestingLimit 0 tokens
    if (peek rest).lexeme == .finish then .ok e
    else refuse (.trailing (peek rest).lexeme) (peek rest)

/-- The tree of a source text. -/
def ofText (variableName : String) (source : List Char) : Except ReadError (Expr Numeral) := do
  ofTokens variableName (← Token.ofText source)

end Expr

end CurvePlot
