import CurvePlot.Number.Spelling
import CurvePlot.Text.Hex

/-!
# JSON texts

A JSON value is written compactly, on one line, or with one member or item per line, indented by two
spaces per level. In strings the quote, the backslash and the control characters are escaped and
nothing else. A double that is not finite is written as `null`, JSON having no other word for it.
-/

namespace CurvePlot

/-- A JSON value. Numbers are held as their texts, and objects keep the order of their members. -/
inductive JsonValue where
  /-- The missing value. -/
  | null
  /-- A truth value. -/
  | bool (value : Bool)
  /-- A number, as its text. -/
  | number (text : String)
  /-- A string. -/
  | string (value : String)
  /-- A row of values. -/
  | array (items : List JsonValue)
  /-- Named values. -/
  | object (members : List (String × JsonValue))

namespace JsonValue

/-- Numbers in JSON texts: powers of ten, with their sign, from `1e+16` up and below `1e-5`. -/
def numbers : Spelling where
  positional := fun lead => -5 ≤ lead && lead ≤ 15
  pointZero := true
  plus := true
  tie := .even
  nan := "null"
  infinity := "null"

/-- A double, `null` when it is not finite. -/
def ofFloat (x : Float) : JsonValue :=
  if x.isFinite then number (numbers.write x) else null

/-- A natural number. -/
def ofNat (n : Nat) : JsonValue :=
  number (toString n)

/-- A value that may be missing. -/
def ofOption {α : Type} (write : α → JsonValue) : Option α → JsonValue
  | some value => write value
  | none => null

/-- A character inside a string. -/
def escape (c : Char) : List Char :=
  if c == '"' then ['\\', '"']
  else if c == '\\' then ['\\', '\\']
  else if c == '\x08' then ['\\', 'b']
  else if c == '\x0c' then ['\\', 'f']
  else if c == '\n' then ['\\', 'n']
  else if c == '\r' then ['\\', 'r']
  else if c == '\t' then ['\\', 't']
  else if c.toNat < 0x20 then
    ['\\', 'u', '0', '0', Text.lowerHexDigit (c.toNat / 16),
      Text.lowerHexDigit (c.toNat % 16)]
  else [c]

/-- A string between quotes. -/
def quote (text : String) : String :=
  "\"" ++ String.ofList (text.toList.flatMap escape) ++ "\""

mutual

/-- The value on one line, without spaces. -/
def compact : JsonValue → String
  | null => "null"
  | bool value => if value then "true" else "false"
  | number text => text
  | string value => quote value
  | array items => "[" ++ String.intercalate "," (compactItems items) ++ "]"
  | object members => "\x7b" ++ String.intercalate "," (compactMembers members) ++ "\x7d"

/-- The items of a row, each on one line. -/
def compactItems : List JsonValue → List String
  | [] => []
  | item :: rest => item.compact :: compactItems rest

/-- The members of an object, each on one line. -/
def compactMembers : List (String × JsonValue) → List String
  | [] => []
  | (key, value) :: rest => (quote key ++ ":" ++ value.compact) :: compactMembers rest

end

/-- The indentation of a level. -/
def indentation (level : Nat) : String :=
  String.ofList (List.replicate (2 * level) ' ')

/-- Parts between brackets, each on a line of its own; without parts, the brackets alone. -/
def block (opening closing : String) (level : Nat) (parts : List String) : String :=
  if parts.isEmpty then opening ++ closing
  else
    opening ++ "\n" ++
      String.intercalate ",\n" (parts.map fun part => indentation (level + 1) ++ part) ++
      "\n" ++ indentation level ++ closing

mutual

/-- The value at a level of indentation, with a line for each item and member. -/
def prettyAt (level : Nat) : JsonValue → String
  | null => "null"
  | bool value => if value then "true" else "false"
  | number text => text
  | string value => quote value
  | array items => block "[" "]" level (prettyItems (level + 1) items)
  | object members => block "\x7b" "\x7d" level (prettyMembers (level + 1) members)

/-- The items of a row. -/
def prettyItems (level : Nat) : List JsonValue → List String
  | [] => []
  | item :: rest => item.prettyAt level :: prettyItems level rest

/-- The members of an object. -/
def prettyMembers (level : Nat) : List (String × JsonValue) → List String
  | [] => []
  | (key, value) :: rest => (quote key ++ ": " ++ value.prettyAt level) :: prettyMembers level rest

end

/-- The value with a line for each item and member. -/
def pretty (value : JsonValue) : String :=
  value.prettyAt 0

end JsonValue

end CurvePlot
