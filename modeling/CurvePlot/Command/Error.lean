import CurvePlot.Command.FileTree
import CurvePlot.Plot.Mapping

/-!
# Failures of a command

A command fails for one of a few causes. What it tells is a line with the error and, when a file is
behind it, the cause in a paragraph of its own. An overflow is not an error that the command finds: it
breaks the run off, and the command tells nothing.
-/

namespace CurvePlot

/-- Why a command fails. -/
inductive CommandError where
  /-- The range has not three parts, or none of them has a value. -/
  | badRange (range : String)
  /-- The standard input cannot be read. -/
  | unreadableInput (fault : FileFault)
  /-- The file with the formulas cannot be read. -/
  | unreadable (path : String) (fault : FileFault)
  /-- There is nothing to plot. -/
  | noFormulas
  /-- The series cannot be mapped or drawn. -/
  | unmappable (error : MappingError)
  /-- A picture of pixels has no file to go to. -/
  | noOutput
  /-- The output cannot be written. -/
  | unwritable (path : String) (fault : FileFault)
  /-- A place in the picture, or the size of its pixels, is no word. -/
  | overflow
deriving DecidableEq

namespace CommandError

/-- The error of a picture that is not drawn. -/
def ofPicture : PictureFault → CommandError
  | .unusable error => unmappable error
  | .overflow => overflow

/-- The text of the error, if the command has one. -/
def message? : CommandError → Option String
  | badRange range => some ("--range expects MIN,MAX,STEP, got '" ++ range ++ "'")
  | unreadableInput _ => some "reading stdin"
  | unreadable path _ => some ("reading " ++ path)
  | noFormulas => some "no formulas given; use -e/--expression or -f/--file"
  | unmappable error => some error.display
  | noOutput => some "--format png needs --output <PATH>"
  | unwritable path _ => some ("writing " ++ path)
  | overflow => none

/-- What is behind the error. -/
def cause : CommandError → Option FileFault
  | unreadableInput fault => some fault
  | unreadable _ fault => some fault
  | unwritable _ fault => some fault
  | _ => none

/-- The lines that tell the error and its cause. -/
def lines (e : CommandError) : List String :=
  match e.message?, e.cause with
  | none, _ => []
  | some message, none => ["Error: " ++ message]
  | some message, some fault =>
    ["Error: " ++ message, "", "Caused by:", "    " ++ fault.message]

/-- The exit code: one for an error, and another one for a run that an overflow breaks off. -/
def code : CommandError → UInt32
  | overflow => 101
  | _ => 1

end CommandError

end CurvePlot
