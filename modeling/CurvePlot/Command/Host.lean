import CurvePlot.Command.FileTree

/-!
# Hosts

Where a command runs is a host: it finds files, takes the output, and hears what is said beside it.
`Desk` is a host in memory, which shows afterwards what a command has done. Its user keeps settings
in the folder `config` of the working folder.
-/

namespace CurvePlot

/-- What a command asks of the place where it runs. -/
class Host (m : Type → Type) where
  /-- The path of the standard settings file, if its folder is there or can be made. -/
  settingsFile : m (Option String)
  /-- The text of a file. -/
  read : String → m (Except FileFault String)
  /-- The text of the standard input. -/
  readInput : m (Except FileFault String)
  /-- Writes a file. -/
  write : String → FileContent → m (Except FileFault Unit)
  /-- Prints a line as output. -/
  print : String → m Unit
  /-- Says a line beside the output. -/
  say : String → m Unit

/-- A host in memory. What is said beside the output are the lines of the command itself, about
skipped formulas and errors; the log, with its warnings about mended settings and ranges, and what
the system tells of an overflow are left out. -/
structure Desk where
  /-- The files and folders. -/
  tree : FileTree
  /-- The standard input. -/
  input : String
  /-- The lines that were printed, the latest first. -/
  printed : List String
  /-- The command's own lines that were said, the latest first. -/
  said : List String

namespace Desk

/-- The folder of the standard settings file, in the working folder. -/
def settingsFolder : List String := ["config", "formplot"]

/-- The name of the standard settings file. -/
def settingsName : String := "config.toml"

/-- The path of the standard settings file. -/
def settingsPath : String :=
  String.intercalate "/" (settingsFolder ++ [settingsName])

instance : Host (StateM Desk) where
  settingsFile := do
    let tree := (← get).tree
    match tree.makeFolder? (tree.working ++ settingsFolder) with
    | none => return none
    | some tree =>
      modify fun desk => { desk with tree := tree }
      return some settingsPath
  read path := return (← get).tree.read path
  readInput := return .ok (← get).input
  write path content := do
    match (← get).tree.write path content with
    | .error fault => return .error fault
    | .ok tree =>
      modify fun desk => { desk with tree := tree }
      return .ok ()
  print text := modify fun desk => { desk with printed := text :: desk.printed }
  say text := modify fun desk => { desk with said := text :: desk.said }

/-- Everything that was printed, a line break behind each line. -/
def output (desk : Desk) : String :=
  String.join (desk.printed.reverse.map (· ++ "\n"))

end Desk

end CurvePlot
