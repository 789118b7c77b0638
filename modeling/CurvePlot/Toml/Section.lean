import CurvePlot.Toml.Value

/-!
# Building the tables of a TOML document

A table comes about by a header, by a dotted key, or because a header or dotted key names a table
inside it. How it came about decides what may be added later:

* a header opens a table once; a table that was only implied by a deeper header may still be opened,
* a dotted key adds to tables that dotted keys made, passes through tables that are implied, but
  never enters a table that has a header of its own,
* a header in double brackets adds a further table to a row of tables, and later headers below it
  belong to the last table of the row,
* a value is complete, and no key is given twice.
-/

namespace CurvePlot.Toml

/-- How a table came about. -/
inductive Origin where
  /-- By a header of its own, or as the table of the document. -/
  | opened
  /-- By a header of a table inside it. -/
  | implied
  /-- By a dotted key. -/
  | dotted
deriving DecidableEq, Repr

/-- What a key stands for while the document is being read. -/
inductive Node where
  /-- A value. -/
  | value (value : TomlValue)
  /-- A table. -/
  | table (origin : Origin) (entries : List (String × Node))
  /-- A row of tables, each under a header in double brackets. -/
  | tables (earlier : List (List (String × Node))) (last : List (String × Node))

/-- The entries of a table. -/
abbrev Entries := List (String × Node)

namespace Entries

/-- The entries with one put in the place of that of its key, or at the end. -/
def put (entries : Entries) (key : String) (node : Node) : Entries :=
  match entries with
  | [] => [(key, node)]
  | (k, n) :: rest => if k == key then (key, node) :: rest else (k, n) :: put rest key node

/-- Changes the table that a path leads to. Where the path leads to nothing, tables are made, by
dotted keys if `dotted` is set. The change is given how the table came about. -/
def alter (dotted : Bool) (change : Origin → Entries → Option Entries) :
    List String → Origin → Entries → Option Entries
  | [], origin, entries => change origin entries
  | key :: path, _, entries =>
    match entries.lookup key with
    | none =>
      let origin := if dotted then .dotted else .implied
      (alter dotted change path origin []).map fun inner =>
        entries.put key (.table origin inner)
    | some (.value _) => none
    | some (.table origin inner) =>
      if dotted && origin == .opened then none
      else (alter dotted change path origin inner).map fun inner =>
        entries.put key (.table origin inner)
    | some (.tables earlier last) =>
      (alter dotted change path .opened last).map fun last =>
        entries.put key (.tables earlier last)

/-- Gives a value to a key, behind a path of dotted keys. A table that dotted keys did not make is
not entered by one, and is entered only without. -/
def give (path : List String) (key : String) (value : TomlValue) (entries : Entries) :
    Option Entries :=
  let set (origin : Origin) (inner : Entries) : Option Entries :=
    if (origin == .dotted) == path.isEmpty then none
    else if (inner.lookup key).isSome then none
    else some (inner.put key (.value value))
  alter true set path .opened entries

/-- Opens a table under a header. -/
def openTable (path : List String) (key : String) (entries : Entries) : Option Entries :=
  let set (_ : Origin) (inner : Entries) : Option Entries :=
    match inner.lookup key with
    | none => some (inner.put key (.table .opened []))
    | some (.table .implied deeper) => some (inner.put key (.table .opened deeper))
    | some _ => none
  alter false set path .opened entries

/-- Opens a further table of a row under a header in double brackets. -/
def openFurther (path : List String) (key : String) (entries : Entries) : Option Entries :=
  let set (_ : Origin) (inner : Entries) : Option Entries :=
    match inner.lookup key with
    | none => some (inner.put key (.tables [] []))
    | some (.tables earlier last) => some (inner.put key (.tables (earlier ++ [last]) []))
    | some _ => none
  alter false set path .opened entries

/-- Gives a value to a key inside the table of a header. -/
def giveWithin (header path : List String) (key : String) (value : TomlValue)
    (entries : Entries) : Option Entries :=
  alter false (fun _ inner => give path key value inner) header .opened entries

end Entries

mutual

/-- The value of a node. -/
def Node.toValue : Node → TomlValue
  | .value value => value
  | .table _ entries => .table (Entries.toValues entries)
  | .tables earlier last => .array (Entries.rowToValues earlier ++ [.table (Entries.toValues last)])

/-- The values of the entries. -/
def Entries.toValues : List (String × Node) → List (String × TomlValue)
  | [] => []
  | (key, node) :: rest => (key, node.toValue) :: Entries.toValues rest

/-- The tables of a row. -/
def Entries.rowToValues : List (List (String × Node)) → List TomlValue
  | [] => []
  | entries :: rest => .table (Entries.toValues entries) :: Entries.rowToValues rest

end

/-- A key that was put is found. -/
theorem Entries.lookup_put (entries : Entries) (key : String) (node : Node) :
    (entries.put key node).lookup key = some node := by
  induction entries with
  | nil => simp [put]
  | cons entry rest ih =>
    obtain ⟨k, n⟩ := entry
    by_cases h : k = key
    · simp [put, h]
    · have h' : (key == k) = false := by simpa using fun e => h e.symm
      simp only [put, beq_iff_eq, h, if_false, List.lookup_cons, h']
      exact ih

/-- A table of the document without a path takes a key that it does not have. -/
theorem Entries.give_nil {key : String} {value : TomlValue} {entries : Entries}
    (h : entries.lookup key = none) :
    give [] key value entries = some (entries.put key (.value value)) := by
  simp only [give, alter, h]
  rfl

end CurvePlot.Toml
