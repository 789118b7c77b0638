/-!
# TOML values

The values of a TOML document. A table keeps its entries in the order in which they were written,
and no key occurs twice in it. A date or a time is kept as its text.
-/

namespace CurvePlot

/-- A value of a TOML document. -/
inductive TomlValue where
  /-- A string. -/
  | string (value : String)
  /-- An integer of 64 bits. -/
  | integer (value : Int)
  /-- A double. -/
  | float (value : Float)
  /-- A truth value. -/
  | boolean (value : Bool)
  /-- A date, a time or both, as written. -/
  | moment (text : String)
  /-- A row of values. -/
  | array (items : List TomlValue)
  /-- Named values. -/
  | table (entries : List (String × TomlValue))

namespace TomlValue

/-- The string that a value is. -/
def asString? : TomlValue → Option String
  | string value => some value
  | _ => none

/-- The integer that a value is. -/
def asInteger? : TomlValue → Option Int
  | integer value => some value
  | _ => none

/-- The double that a value is; an integer stands for its nearest double. -/
def asFloat? : TomlValue → Option Float
  | float value => some value
  | integer value => some (Float.ofInt value)
  | _ => none

/-- The truth value that a value is. -/
def asBool? : TomlValue → Option Bool
  | boolean value => some value
  | _ => none

/-- The items of a row. -/
def asArray? : TomlValue → Option (List TomlValue)
  | array items => some items
  | _ => none

/-- The entries of a record with the given keys, which may also be written as a row of the values
of its first keys. A moment is a record that has none of them. -/
def asRecord? (keys : List String) : TomlValue → Option (List (String × TomlValue))
  | table entries => some entries
  | array items => if items.length ≤ keys.length then some (keys.zip items) else none
  | moment _ => some []
  | _ => none

end TomlValue

end CurvePlot
