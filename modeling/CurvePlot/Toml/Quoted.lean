import CurvePlot.Text.Hex
import CurvePlot.Text.Reader

/-!
# Strings in TOML documents

A string stands between one or three quotes. Between double quotes a backslash opens an escape;
between single quotes every character stands for itself. Three quotes allow line breaks, a break
right behind the opening ones being no part of the string, and up to two quotes in a row inside.
Tabs are the only control characters that may stand unescaped.

A string is written in the first of these styles that needs no escape: double quotes, single
quotes, three double quotes, three single quotes. If all of them need one, escapes are written
between double quotes, three of them when the string has a line break.
-/

namespace CurvePlot.Toml

open CurvePlot.Text

/-- Spaces and tabs. -/
def isSpace (c : Char) : Bool :=
  c == ' ' || c == '\t'

/-- Characters that may stand in a comment or, the quotes aside, in a string. -/
def isPrintable (c : Char) : Bool :=
  c == '\t' || (0x20 ≤ c.toNat && c.toNat ≠ 0x7F)

/-- The rest behind a line break, which is a line feed or a carriage return with a line feed. -/
def lineBreak? : List Char → Option (List Char)
  | '\n' :: rest => some rest
  | '\r' :: '\n' :: rest => some rest
  | _ => none

/-- The rest behind the spaces and tabs at the head. -/
def skipSpaces (text : List Char) : List Char :=
  text.dropWhile isSpace

/-- The number that hexadecimal digits write. -/
def hexNumber? (digits : List Char) : Option Nat :=
  digits.foldlM (fun value c => (hexValue? c).map (value * 16 + ·)) 0

/-- The character whose code the given number of hexadecimal digits write. -/
def readCode (count : Nat) (text : List Char) : Option (Char × List Char) :=
  match hexNumber? (text.take count) with
  | none => none
  | some code =>
    if h : count ≤ text.length ∧ code.isValidChar then
      some (Char.ofNatAux code h.2, text.drop count)
    else none

/-- The character of an escape, read behind its backslash. -/
def readEscape : Reader Char
  | 'b' :: rest => some ('\x08', rest)
  | 't' :: rest => some ('\t', rest)
  | 'n' :: rest => some ('\n', rest)
  | 'f' :: rest => some ('\x0c', rest)
  | 'r' :: rest => some ('\r', rest)
  | '"' :: rest => some ('"', rest)
  | '\\' :: rest => some ('\\', rest)
  | 'u' :: rest => readCode 4 rest
  | 'U' :: rest => readCode 8 rest
  | _ => none

namespace Quoted

/-- A character between double quotes. -/
def basicChar : Reader Char
  | [] => none
  | c :: rest =>
    if c == '\\' then readEscape rest
    else if isPrintable c && c != '"' then some (c, rest)
    else none

/-- A character between single quotes. -/
def literalChar : Reader Char
  | [] => none
  | c :: rest => if isPrintable c && c != '\'' then some (c, rest) else none

/-- The rest behind the spaces, tabs and line breaks at the head. -/
def skipBlankLines : List Char → List Char
  | [] => []
  | '\r' :: '\n' :: rest => skipBlankLines rest
  | c :: rest => if isSpace c || c == '\n' then skipBlankLines rest else c :: rest

/-- The rest behind a backslash at the end of a line, where all space up to the next character is
skipped. -/
def joinedLine? (text : List Char) : Option (List Char) :=
  (lineBreak? (skipSpaces text)).map skipBlankLines

/-- Up to two quotes in a row. -/
def innerQuotes (quote : Char) (text : List Char) : Option (List Char × List Char) :=
  let quotes := text.takeWhile (· == quote)
  if 1 ≤ quotes.length && quotes.length ≤ 2 then some (quotes, text.drop quotes.length) else none

/-- The rest behind a line break, and the line feed that it stands for. -/
def innerBreak (text : List Char) : Option (List Char × List Char) :=
  (lineBreak? text).map fun rest => (['\n'], rest)

/-- A part of a string between three double quotes. -/
def basicPart (text : List Char) : Option (List Char × List Char) :=
  match text with
  | [] => none
  | c :: rest =>
    if c == '\\' then
      match joinedLine? rest with
      | some after => some ([], after)
      | none => (readEscape rest).map fun (value, after) => ([value], after)
    else if c == '"' then innerQuotes '"' text
    else if isPrintable c then some ([c], rest)
    else innerBreak text

/-- A part of a string between three single quotes. -/
def literalPart (text : List Char) : Option (List Char × List Char) :=
  match text with
  | [] => none
  | c :: rest =>
    if c == '\'' then innerQuotes '\'' text
    else if isPrintable c then some ([c], rest)
    else innerBreak text

/-- The rest of a string on one line, up to and with its closing quote. -/
def readLine (quote : Char) (char : Reader Char) (text : List Char) :
    Option (String × List Char) :=
  let (chars, rest) := Reader.repeated char text
  (Reader.skip? [quote] rest).map fun after => (String.ofList chars, after)

/-- The rest of a string between three quotes, up to and with the closing ones. Of more than three
closing quotes, up to two belong to the string. -/
def readLines (quote : Char) (part : Reader (List Char)) (text : List Char) :
    Option (String × List Char) :=
  let (parts, rest) := Reader.repeated part ((lineBreak? text).getD text)
  let quotes := (rest.takeWhile (· == quote)).length
  if quotes < 3 then none
  else
    let inner := min (quotes - 3) 2
    some (String.ofList (parts.flatten ++ List.replicate inner quote), rest.drop (inner + 3))

/-- A string on one line. -/
def readShort : Reader String
  | '"' :: rest => readLine '"' basicChar rest
  | '\'' :: rest => readLine '\'' literalChar rest
  | _ => none

/-- A string. -/
def read : Reader String
  | '"' :: '"' :: '"' :: rest => readLines '"' basicPart rest
  | '\'' :: '\'' :: '\'' :: rest => readLines '\'' literalPart rest
  | text => readShort text

/-- The length of the longest row of a character. -/
def longestRow (c : Char) (text : List Char) : Nat :=
  (text.splitBy fun a b => a == c && b == c).foldl
    (fun longest row => if row.head? == some c then max longest row.length else longest) 0

/-- The styles of writing a string. -/
inductive Style where
  /-- Between double quotes. -/
  | basic
  /-- Between single quotes. -/
  | literal
  /-- Between three double quotes. -/
  | basicLines
  /-- Between three single quotes. -/
  | literalLines
deriving DecidableEq, Repr

/-- Whether a string has a control character other than a tab or a line feed. -/
def hasControl (text : List Char) : Bool :=
  text.any fun c => !isPrintable c && c != '\n'

/-- The style in which a string is written. -/
def styleOf (text : List Char) : Style :=
  let broken := text.contains '\n'
  let control := hasControl text
  let doubles := longestRow '"' text
  let singles := longestRow '\'' text
  let escapes := control || text.contains '\\'
  if !escapes && !broken && doubles == 0 then .basic
  else if !control && !broken && singles == 0 then .literal
  else if !escapes && doubles ≤ 2 then .basicLines
  else if !control && singles ≤ 2 then .literalLines
  else if broken then .basicLines
  else .basic

/-- A character between double quotes, escaped where it cannot stand for itself. -/
def escape (c : Char) : List Char :=
  if c == '\x08' then ['\\', 'b']
  else if c == '\t' then ['\\', 't']
  else if c == '\n' then ['\\', 'n']
  else if c == '\x0c' then ['\\', 'f']
  else if c == '\r' then ['\\', 'r']
  else if c == '"' then ['\\', '"']
  else if c == '\\' then ['\\', '\\']
  else if !isPrintable c then
    ['\\', 'u', '0', '0', upperHexDigit (c.toNat / 16), upperHexDigit (c.toNat % 16)]
  else [c]

/-- The inside of a string between three double quotes. After two quotes in a row, counted by
`row`, the third is escaped. -/
def escapeLines : Nat → List Char → List Char
  | _, [] => []
  | row, c :: rest =>
    if c == '"' then
      if row < 2 then c :: escapeLines (row + 1) rest else escape c ++ escapeLines 0 rest
    else (if c == '\n' then [c] else escape c) ++ escapeLines 0 rest

/-- The text of a string in a style. -/
def writeAs (style : Style) (text : List Char) : List Char :=
  let opening := if text.contains '\n' then ['\n'] else []
  match style with
  | .basic => '"' :: (text.flatMap escape ++ ['"'])
  | .literal => '\'' :: (text ++ ['\''])
  | .basicLines =>
    ['"', '"', '"'] ++ opening ++ escapeLines 0 text ++ ['"', '"', '"']
  | .literalLines => ['\'', '\'', '\''] ++ opening ++ text ++ ['\'', '\'', '\'']

/-- The text of a string. -/
def write (text : List Char) : List Char :=
  writeAs (styleOf text) text

end Quoted

end CurvePlot.Toml
