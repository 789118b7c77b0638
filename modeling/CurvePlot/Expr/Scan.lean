import CurvePlot.Expr.Fault
import CurvePlot.Text.Blank
import CurvePlot.Text.Letter

/-!
# From characters to tokens

Scanning goes through the text from left to right and takes the longest lexeme at each place;
blanks separate and are skipped. `Token.scan` yields the tokens that are written. Behind a number,
a name or a closing parenthesis, a number, a name or an opening parenthesis is a factor:
`Token.withProducts` puts the star between the two, except between the name of a function and the
parenthesis of its argument. `Token.ofText` joins both and adds the end of the source.
-/

namespace CurvePlot

/-- The lexeme that a sign alone makes. The typographic signs for minus, times and division stand
for the ASCII ones. -/
def Lexeme.ofSign? (c : Char) : Option Lexeme :=
  if c == '+' then some plus
  else if c == '-' || c == '\u2212' then some minus
  else if c == '*' || c == '\u00D7' || c == '\u22C5' then some star
  else if c == '/' || c == '\u00F7' then some slash
  else if c == '^' then some caret
  else if c == '(' then some opening
  else if c == ')' then some closing
  else if c == '|' then some bar
  else none

namespace Token

/-- A scanned lexeme and the number of characters it takes, or the cause of the refusal and the
number of characters it covers. -/
abbrev Scanned := Except (Malformed × Nat) (Lexeme × Nat)

/-- A number that begins with a point ends before a second point; a text that goes on there is
refused as one number. -/
def scanNumber (literal : Literal) (rest : List Char) : Scanned :=
  match literal.whole, literal.power, rest with
  | [], none, '.' :: more =>
    let digits := more.takeWhile Text.isAsciiDigit
    let power := (Literal.scanPower Text.isAsciiDigit (more.dropWhile Text.isAsciiDigit)).1
    let text := literal.text ++ '.' :: digits ++ Literal.powerText power
    .error (.invalidNumber (String.ofList text), text.length)
  | _, _, _ => .ok (.number literal, literal.text.length)

/-- The lexeme at the head of the text `c :: rest`, `c` being no blank. -/
def scanLexeme (c : Char) (rest : List Char) : Scanned :=
  match Lexeme.ofSign? c with
  | some lexeme => .ok (lexeme, 1)
  | none =>
    match Literal.scan? Text.isAsciiDigit (c :: rest) with
    | some (literal, after) => scanNumber literal after
    | none =>
      if Text.isNameChar c then
        let name := c :: rest.takeWhile Text.isNameChar
        .ok (.name (String.ofList name), name.length)
      else .error (.unexpectedCharacter c, 1)

/-- The written tokens of a text that begins at the place `place` of the source. Every lexeme takes
at least the character it begins with. -/
def scan (place : Nat) : List Char → Except ReadError (List Token)
  | [] => .ok []
  | c :: rest =>
    if Text.isBlank c then scan (place + 1) rest
    else
      match scanLexeme c rest with
      | .error (cause, length) => .error ⟨cause, some ⟨place, place + length⟩⟩
      | .ok (lexeme, length) =>
        match scan (place + length) (rest.drop (length - 1)) with
        | .error e => .error e
        | .ok tokens => .ok (⟨lexeme, ⟨place, place + length⟩⟩ :: tokens)
termination_by text => text.length
decreasing_by
  · simp
  · simp only [List.length_drop, List.length_cons]; omega

/-- Whether `left` is the name of a function and `right` opens its argument. -/
def opensCall (left right : Lexeme) : Bool :=
  match left, right with
  | .name name, .opening => (NamedFunction.ofName? name).isSome
  | _, _ => false

/-- Whether a product is left unwritten between two neighbouring lexemes. -/
def impliesProduct (left right : Lexeme) : Bool :=
  left.endsOperand && right.beginsFactor && !opensCall left right

/-- The tokens with the unwritten stars put in. -/
def withProducts : List Token → List Token
  | left :: right :: rest =>
    if impliesProduct left.lexeme right.lexeme then
      left :: ⟨.star, ⟨left.span.stop, right.span.start⟩⟩ :: withProducts (right :: rest)
    else left :: withProducts (right :: rest)
  | tokens => tokens

/-- The tokens of a source text, with unwritten products and the end of the source. -/
def ofText (source : List Char) : Except ReadError (List Token) :=
  (scan 0 source).map fun tokens =>
    withProducts tokens ++ [⟨.finish, ⟨source.length, source.length⟩⟩]

/-- Nothing is put in front of the first token. -/
theorem withProducts_cons (token : Token) (tokens : List Token) :
    ∃ rest, withProducts (token :: tokens) = token :: rest := by
  cases tokens with
  | nil => exact ⟨[], rfl⟩
  | cons right rest =>
    by_cases h : impliesProduct token.lexeme right.lexeme
    · exact ⟨_, by simp only [withProducts, h, if_true]; rfl⟩
    · exact ⟨_, by simp only [withProducts, h, Bool.false_eq_true, if_false]; rfl⟩

end Token

end CurvePlot
