import CurvePlot.Command.Run
import CurvePlot.Output.Png

/-!
# The program

The command line runs on the files of the system. Its standard settings lie in the user's folder for
settings.
-/

namespace CurvePlot

/-- The fault of a place that is a file where a folder is wanted, or the other way round, by the
number that the system gives it. -/
def FileFault.ofWrongKind (number : UInt32) : FileFault :=
  if number == 20 then .notFolder else .isFolder

/-- The fault behind an error of the system. -/
def FileFault.ofSystem : IO.Error → FileFault
  | .noFileOrDirectory .. => .missing
  | .inappropriateType _ number _ => .ofWrongKind number
  | error => .other (toString error)

/-- The outcome of a step that may fail. -/
def attempt {α : Type} (step : IO α) : IO (Except FileFault α) := do
  match ← step.toBaseIO with
  | .ok value => return .ok value
  | .error error => return .error (.ofSystem error)

/-- The text of some bytes. -/
def textOf (bytes : ByteArray) : Except FileFault String :=
  match String.fromUTF8? bytes with
  | some text => .ok text
  | none => .error .notText

/-- The user's folder for settings. -/
def settingsRoot : IO (Option String) := do
  match ← IO.getEnv "XDG_CONFIG_HOME", ← IO.getEnv "HOME" with
  | some folder, home =>
    if folder.startsWith "/" then return some folder
    else return home.map (· ++ "/.config")
  | none, home => return home.map (· ++ "/.config")

instance : Host IO where
  settingsFile := do
    match ← settingsRoot with
    | none => return none
    | some root =>
      let folder := root ++ "/formplot"
      match ← attempt (IO.FS.createDirAll folder) with
      | .ok _ => return some (folder ++ "/config.toml")
      | .error _ => return none
  read path := return (← attempt (IO.FS.readBinFile path)).bind textOf
  readInput := do
    let input ← IO.getStdin
    return (← attempt input.readBinToEnd).bind textOf
  write path content :=
    match content with
    | .text text => attempt (IO.FS.writeFile path text)
    | .picture picture => attempt (IO.FS.writeBinFile path (Png.file picture))
  print text := IO.println text
  say text := IO.eprintln text

end CurvePlot

/-- Runs the program. -/
def main (arguments : List String) : IO UInt32 :=
  CurvePlot.Command.run arguments
