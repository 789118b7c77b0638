import CurvePlot.Output.Picture
import CurvePlot.Text.Blank

/-!
# File trees

A file tree holds files by their places, which are the names on the way from the root, and knows the
folder in which a command runs. A path leads from there, or from the root if it is absolute. Folders
are the proper beginnings of places, the working folder with those around it, and those that were
made. Reading and writing fail as on a file system: a name below a file, a missing name, a folder
where a file is wanted.
-/

namespace CurvePlot

/-- What a file holds. -/
inductive FileContent where
  /-- A text. -/
  | text (text : String)
  /-- A picture as pixels. -/
  | picture (picture : Picture)
deriving DecidableEq

/-- Why a file cannot be read or written. -/
inductive FileFault where
  /-- There is nothing at this path. -/
  | missing
  /-- The path leads through a file. -/
  | notFolder
  /-- The path leads to a folder. -/
  | isFolder
  /-- The file holds no text. -/
  | notText
  /-- Any other cause, in the words of the system. -/
  | other (message : String)
deriving DecidableEq, Repr

/-- The text of the fault. -/
def FileFault.message : FileFault → String
  | missing => "No such file or directory (os error 2)"
  | notFolder => "Not a directory (os error 20)"
  | isFolder => "Is a directory (os error 21)"
  | notText => "stream did not contain valid UTF-8"
  | other message => message

/-- Files and folders by the names on the way to them from the root. -/
structure FileTree where
  /-- The files, each place once. -/
  files : List (List String × FileContent)
  /-- Folders that may be empty. -/
  folders : List (List String)
  /-- The folder in which a command runs. -/
  working : List String
deriving DecidableEq

/-- A path as written. -/
structure FilePath where
  /-- The names on the path; an empty one or a dot stays in place. -/
  names : List String
  /-- Whether the path can only lead to a folder. -/
  isFolder : Bool
  /-- Whether the path starts at the root of the system. -/
  isAbsolute : Bool
deriving DecidableEq, Repr

/-- The path that a text writes. -/
def FilePath.ofText (text : String) : FilePath :=
  let parts := (Text.pieces '/' text.toList).map String.ofList
  let last := parts.getLast?.getD ""
  ⟨parts.filter fun part => part != "" && part != ".", last == "" || last == "." || last == "..",
    text.startsWith "/"⟩

namespace FileTree

/-- The content of a file. -/
def content? (t : FileTree) (place : List String) : Option FileContent :=
  t.files.lookup place

/-- Whether a folder is at this place: the working folder, a folder that was made or one around
them, or a folder around a file. The root is around all of them. -/
def isFolder (t : FileTree) (place : List String) : Bool :=
  (t.working :: t.folders).any place.isPrefixOf ||
    t.files.any fun (path, _) => place.isPrefixOf path && place.length < path.length

/-- The place that names lead to. Every name but the last must be that of a folder. Two points lead
to the folder around, and from the root to itself. -/
def walk (t : FileTree) (place : List String) : List String → Except FileFault (List String)
  | [] => .ok place
  | name :: rest =>
    if t.isFolder place then
      walk t (if name == ".." then place.dropLast else place ++ [name]) rest
    else if (t.content? place).isSome then .error .notFolder
    else .error .missing

/-- The place that a path leads to, from the root or from the working folder. -/
def locate (t : FileTree) (path : FilePath) : Except FileFault (List String) :=
  t.walk (if path.isAbsolute then [] else t.working) path.names

/-- The text of a file. -/
def read (t : FileTree) (path : String) : Except FileFault String := do
  let path := FilePath.ofText path
  let place ← t.locate path
  match t.content? place with
  | some content =>
    if path.isFolder then .error .notFolder
    else
      match content with
      | .text text => .ok text
      | .picture _ => .error .notText
  | none => if t.isFolder place then .error .isFolder else .error .missing

/-- The files with the content of one of them replaced or added. -/
def replace (files : List (List String × FileContent)) (place : List String)
    (content : FileContent) : List (List String × FileContent) :=
  match files with
  | [] => [(place, content)]
  | file :: rest =>
    if file.1 == place then (place, content) :: rest else file :: replace rest place content

/-- The tree with a file written, whose folder must be there. -/
def write (t : FileTree) (path : String) (content : FileContent) : Except FileFault FileTree := do
  let path := FilePath.ofText path
  let place ← t.locate path
  if t.isFolder place then .error .isFolder
  else if path.isFolder then
    .error (if (t.content? place).isSome then .notFolder else .isFolder)
  else .ok { t with files := replace t.files place content }

/-- The tree with a folder and those around it, unless there is a file in the way. -/
def makeFolder? (t : FileTree) (place : List String) : Option FileTree :=
  if (List.range (place.length + 1)).any fun n => (t.content? (place.take n)).isSome then none
  else some { t with folders := place :: t.folders }

/-- The files that are new or changed since an earlier tree. -/
def changedSince (t earlier : FileTree) : List (List String × FileContent) :=
  t.files.filter fun (place, content) => !decide (earlier.content? place = some content)

/-- A file that is put is found. -/
theorem lookup_replace (files : List (List String × FileContent)) (place : List String)
    (content : FileContent) : (replace files place content).lookup place = some content := by
  induction files with
  | nil => simp [replace]
  | cons file rest ih =>
    obtain ⟨path, old⟩ := file
    by_cases h : path = place
    · simp [replace, h]
    · have h' : (place == path) = false := by simpa using fun e => h e.symm
      simp only [replace, beq_iff_eq, h, if_false, List.lookup_cons, h']
      exact ih

end FileTree

end CurvePlot
