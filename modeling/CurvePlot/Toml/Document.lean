import CurvePlot.Toml.Moment
import CurvePlot.Toml.Number
import CurvePlot.Toml.Quoted
import CurvePlot.Toml.Section

/-!
# TOML documents

A document is a list of lines: blank ones, headers, and keys with their values, each with an
optional comment behind. The value of a document is the table of all its keys, and a document with
a fault anywhere has none. Arrays and tables inside values nest at most `nestingLimit` deep, and a
dotted key has at most as many parts.
-/

namespace CurvePlot.Toml

open CurvePlot.Text

/-- The greatest depth of arrays and tables inside each other, and the greatest number of parts of
a dotted key. -/
def nestingLimit : Nat := 79

/-- Characters of a key without quotes. -/
def isKeyChar (c : Char) : Bool :=
  c.isAlphanum || c == '_' || c == '-'

/-- The rest behind a comment and the line break or the end of the text that closes it. -/
def skipComment (text : List Char) : List Char :=
  match text with
  | '#' :: rest => rest.dropWhile isPrintable
  | _ => text

/-- The rest behind the end of a line: spaces, an optional comment, and a line break or the end of
the text. -/
def endLine? (text : List Char) : Option (List Char) :=
  match skipComment (skipSpaces text) with
  | [] => some []
  | rest => lineBreak? rest

/-- One line without content. -/
def blankLine (text : List Char) : Option (Unit × List Char) :=
  (lineBreak? (skipComment (skipSpaces text))).map fun rest => ((), rest)

/-- The rest behind the blank lines and spaces inside an array. -/
def skipGap (text : List Char) : List Char :=
  skipSpaces (Reader.repeated blankLine text).2

/-- A part of a key. -/
def readKeyPart (text : List Char) : Option (String × List Char) :=
  match Quoted.readShort text with
  | some found => some found
  | none =>
    let name := text.takeWhile isKeyChar
    if name.isEmpty then none else some (String.ofList name, text.dropWhile isKeyChar)

/-- A part of a key behind a point. -/
def readFurtherPart (text : List Char) : Option (String × List Char) := do
  let rest ← Reader.skip? ['.'] (skipSpaces text)
  readKeyPart (skipSpaces rest)

/-- A key: the path of all parts but the last, and the last part. -/
structure Key where
  /-- The tables on the way. -/
  path : List String
  /-- The name in the last one. -/
  name : String
deriving DecidableEq, Repr

/-- The key with these parts. -/
def Key.ofParts (first : String) : List String → Key
  | [] => ⟨[], first⟩
  | second :: others =>
    let inner := ofParts second others
    ⟨first :: inner.path, inner.name⟩

/-- A key, with spaces around its parts. -/
def readKey (text : List Char) : Option (Key × List Char) := do
  let (first, rest) ← readKeyPart (skipSpaces text)
  let (others, after) := Reader.repeated readFurtherPart rest
  if others.length < nestingLimit then some (.ofParts first others, skipSpaces after) else none

/-- A value that holds no other. -/
def readSimple (text : List Char) : Option (TomlValue × List Char) :=
  match text with
  | 't' :: 'r' :: 'u' :: 'e' :: rest => some (.boolean true, rest)
  | 'f' :: 'a' :: 'l' :: 's' :: 'e' :: rest => some (.boolean false, rest)
  | _ =>
    match Quoted.read text with
    | some (value, rest) => some (.string value, rest)
    | none =>
      match readMoment text with
      | some (moment, rest) => some (.moment moment, rest)
      | none => readNumber text

/-- An item of an array, with the gaps around it. -/
def readItem (read : Reader TomlValue) (text : List Char) : Option (TomlValue × List Char) :=
  (read (skipGap text)).map fun (value, rest) => (value, skipGap rest)

/-- An item of an array behind a comma. -/
def readFurtherItem (read : Reader TomlValue) : Reader TomlValue
  | ',' :: rest => readItem read rest
  | _ => none

/-- The items of an array, up to and with its closing bracket. A comma may follow the last. -/
def readItems (read : Reader TomlValue) (text : List Char) :
    Option (List TomlValue × List Char) :=
  match readItem read text with
  | none => (Reader.skip? [']'] (skipGap text)).map fun rest => ([], rest)
  | some (first, rest) =>
    let (others, after) := Reader.repeated (readFurtherItem read) rest
    let final := match after with
      | ',' :: behind => skipGap behind
      | _ => after
    (Reader.skip? [']'] final).map fun behind => (first :: others, behind)

/-- A key with its value. -/
structure Assignment where
  /-- The key. -/
  key : Key
  /-- The value. -/
  value : TomlValue

/-- A key with its value. -/
def readAssignment (read : Reader TomlValue) (text : List Char) :
    Option (Assignment × List Char) := do
  let (key, rest) ← readKey text
  let rest ← Reader.skip? ['='] rest
  let (value, after) ← read (skipSpaces rest)
  some (⟨key, value⟩, skipSpaces after)

/-- A key with its value behind a comma. -/
def readFurtherAssignment (read : Reader TomlValue) : Reader Assignment
  | ',' :: rest => readAssignment read rest
  | _ => none

/-- The table of a list of assignments. -/
def tableOf? (assignments : List Assignment) : Option Entries :=
  assignments.foldlM (fun entries a => entries.give a.key.path a.key.name a.value) []

/-- The assignments of a table on one line, up to and with its closing brace. -/
def readFields (read : Reader TomlValue) (text : List Char) :
    Option (TomlValue × List Char) :=
  match readAssignment read text with
  | none => (Reader.skip? ['\x7d'] (skipSpaces text)).map fun rest => (.table [], rest)
  | some (first, rest) => do
    let (others, after) := Reader.repeated (readFurtherAssignment read) rest
    let behind ← Reader.skip? ['\x7d'] after
    let entries ← tableOf? (first :: others)
    some (.table (Entries.toValues entries), behind)

/-- A value, with room for this many arrays and tables inside each other. -/
def readValue : Nat → Reader TomlValue
  | 0 => readSimple
  | room + 1 => fun text =>
    match text with
    | '[' :: rest =>
      (readItems (readValue room) rest).map fun (items, after) => (.array items, after)
    | '\x7b' :: rest => readFields (readValue room) rest
    | _ => readSimple text

/-- A line with content. -/
inductive Line where
  /-- The header of a table. -/
  | header (key : Key)
  /-- The header of a further table of a row. -/
  | furtherHeader (key : Key)
  /-- A key with its value. -/
  | assignment (assignment : Assignment)

/-- The header of a table, without the end of its line. -/
def readHeader : Reader Line
  | '[' :: '[' :: rest => do
    let (key, after) ← readKey rest
    let behind ← Reader.skip? [']', ']'] after
    some (.furtherHeader key, behind)
  | '[' :: rest => do
    let (key, after) ← readKey rest
    let behind ← Reader.skip? [']'] after
    some (.header key, behind)
  | _ => none

/-- A header, or a key with its value, without the end of its line. -/
def readContent (text : List Char) : Option (Line × List Char) :=
  match text with
  | '[' :: _ => readHeader text
  | _ =>
    (readAssignment (readValue nestingLimit) text).map fun (a, rest) => (.assignment a, rest)

/-- A line with content, behind any blank lines. -/
def readLine (text : List Char) : Option (Line × List Char) := do
  let (line, rest) ← readContent (skipGap text)
  let after ← endLine? rest
  some (line, after)

/-- The lines with content, if every other line is blank. -/
def linesOf? (text : List Char) : Option (List Line) :=
  let (lines, rest) := Reader.repeated readLine text
  match endLine? (skipGap rest) with
  | some [] => some lines
  | _ => none

/-- The keys given so far, and the header that further keys belong to. -/
structure Draft where
  /-- The table of the document. -/
  entries : Entries
  /-- The path of the header. -/
  header : List String

/-- A draft with a further line. -/
def Draft.add? (draft : Draft) : Line → Option Draft
  | .header key =>
    (draft.entries.openTable key.path key.name).map fun entries =>
      ⟨entries, key.path ++ [key.name]⟩
  | .furtherHeader key =>
    (draft.entries.openFurther key.path key.name).map fun entries =>
      ⟨entries, key.path ++ [key.name]⟩
  | .assignment a =>
    (draft.entries.giveWithin draft.header a.key.path a.key.name a.value).map fun entries =>
      ⟨entries, draft.header⟩

/-- The text without the mark that may open it. -/
def withoutMark : List Char → List Char
  | '\ufeff' :: rest => rest
  | text => text

/-- The entries of the document with this text. -/
def entriesOf? (text : List Char) : Option (List (String × TomlValue)) := do
  let lines ← linesOf? (withoutMark text)
  let draft ← lines.foldlM Draft.add? ⟨[], []⟩
  some (Entries.toValues draft.entries)

end CurvePlot.Toml
