import CurvePlot.Command.Error
import CurvePlot.Command.Host
import CurvePlot.Command.Invocation
import CurvePlot.Output.Csv
import CurvePlot.Output.GroupJson
import CurvePlot.Output.Svg
import CurvePlot.Plot.Cache
import CurvePlot.Settings.Reading
import CurvePlot.Settings.Writing

/-!
# Running a command

A command loads its settings, puts the options over them, collects the formulas, reports on them,
names those that were skipped, and puts the plot out. Each of these steps may end the run, and only
the last one writes the output, so that a run that fails leaves none.

What a command does is the same at every host. `Command.outcome` is what it leaves behind at a host
in memory. Memory itself is taken to suffice for all that has a size.
-/

namespace CurvePlot

namespace Settings

/-- The reading rules with a range for the formulas that name none. -/
def withRange (s : Settings) (text : String) : Except CommandError Settings :=
  let values := readValues s.reading text.toList
  if values.length != 3 || values.all Option.isNone then .error (.badRange text)
  else
    .ok { s with reading := { s.reading with defaultRange := some (.ofValues values) } }

/-- The settings with the options of a command line put over them. -/
def withRequest (s : Settings) (r : Request) : Except CommandError Settings :=
  let ranged := match r.range with
    | some text => s.withRange text
    | none => .ok s
  ranged.map fun s =>
    { s with
      grid := s.grid || r.grid
      drawing :=
        { width := r.width.getD s.drawing.width
          height := r.height.getD s.drawing.height
          margin := r.margin.getD s.drawing.margin
          xScale := if r.logX then .log else s.drawing.xScale
          yScale := if r.logY then .log else s.drawing.yScale } }

/-- The report on formulas under the settings. -/
def report (s : Settings) (formulas : List String) : Except MappingError Report :=
  if s.cacheCapacity == 0 then Report.run s.reading s.drawing formulas
  else (OutcomeCache.run s.reading s.drawing (MemoTable.empty s.cacheCapacity) formulas).1

end Settings

/-- The formulas in a text: one on each line that neither is blank nor opens with `#`. -/
def formulasOf (text : String) : List String :=
  let lines := (Text.pieces '\n' text.toList).map Text.trim
  (lines.filter fun line => !line.isEmpty && line.head? != some '#').map String.ofList

namespace Request

/-- The format of the output. -/
def outputFormat (r : Request) : Format :=
  r.format.getD .json

/-- The content of the output. -/
def content (r : Request) (s : Settings) (report : Report) : Except CommandError FileContent :=
  let picture := Picture.ofGroups s.drawing ⟨s.grid, true⟩ report.groups
  match r.outputFormat with
  | .png =>
    if r.output.isNone then .error .noOutput
    else ((picture.bind Picture.held).map .picture).mapError .ofPicture
  | .svg => (picture.map fun p => .text (Svg.document p)).mapError .ofPicture
  | .csv => .ok (.text (Csv.table report.groups))
  | .json => .ok (.text (FamilyGroup.jsonText report.groups))

end Request

namespace Command

variable {m : Type → Type} [Monad m] [Host m]

/-- The settings in a file, standard if it cannot be read. -/
def settingsIn (path : String) : m Settings := do
  match ← Host.read path with
  | .ok text => pure (Settings.ofText text.toList)
  | .error _ => pure .standard

/-- The settings in the standard file. If it cannot be read, one is written. -/
def standardSettings : m Settings := do
  match ← Host.settingsFile with
  | none => pure .standard
  | some path =>
    match ← Host.read path with
    | .ok text => pure (Settings.ofText text.toList)
    | .error _ =>
      let _ ← Host.write path (.text Settings.standard.text)
      pure .standard

/-- The settings that a request goes by. -/
def settings (r : Request) : m Settings :=
  match r.settingsFile with
  | some path => settingsIn path
  | none => standardSettings

/-- The text of the file with formulas. -/
def formulaText (path : String) : m (Except CommandError String) := do
  if path == "-" then
    return (← Host.readInput).mapError .unreadableInput
  else
    return (← Host.read path).mapError (.unreadable path)

/-- All formulas of a request. -/
def formulas (r : Request) : m (Except CommandError (List String)) := do
  match r.formulaFile with
  | none => return .ok r.formulas
  | some path => return (← formulaText path).map fun text => r.formulas ++ formulasOf text

/-- Puts the output in its file, or prints it. -/
def deliver (output : Option String) (content : FileContent) : m (Except CommandError Unit) := do
  match output, content with
  | some path, _ => return (← Host.write path content).mapError (.unwritable path)
  | none, .text text =>
    Host.print text
    return .ok ()
  | none, .picture _ => return .error .noOutput

/-- Reports on formulas and puts the plot out. -/
def present (r : Request) (s : Settings) (formulas : List String) : m (Except CommandError Unit) := do
  match s.report formulas with
  | .error e => return .error (.unmappable e)
  | .ok report =>
    report.diagnostics.forM fun d => Host.say ("skipped " ++ d.formula ++ ": " ++ d.message)
    match r.content s report with
    | .error e => return .error e
    | .ok content => deliver r.output content

/-- Plots what is asked for. -/
def plot (r : Request) : m (Except CommandError Unit) := do
  let loaded ← settings r
  match loaded.withRequest r with
  | .error e => return .error e
  | .ok s =>
    match ← formulas r with
    | .error e => return .error e
    | .ok [] => return .error .noFormulas
    | .ok formulas => present r s formulas

/-- The name and version of the program. -/
def version : String := "formplot 0.1.0"

/-- What the program is for and which options it takes. -/
def help : List String :=
  ["Sample and map formula strings, then render or export the curves", "",
    "Usage: formplot [OPTIONS]", "",
    "Options:",
    "  -e, --expression <FORMULA>    Formula to plot (repeatable)",
    "  -f, --file <PATH>             File with one formula per line, - for the standard input",
    "      --range <MIN,MAX,STEP>    Range of formulas that give none",
    "      --logscale-x              Base-10 logarithmic x axis",
    "      --logscale-y              Base-10 logarithmic y axis",
    "      --grid                    Draw a grid behind the curves",
    "      --width <WIDTH>           Width of the drawing in pixels",
    "      --height <HEIGHT>         Height of the drawing in pixels",
    "      --margin <MARGIN>         Margin of the drawing in pixels",
    "      --format <FORMAT>         png, svg, csv or json [default: json]",
    "  -o, --output <PATH>           Output file (required for png)",
    "      --config <PATH>           Settings file",
    "      --debug                   Tell everything that happens",
    "  -h, --help                    Print help",
    "  -V, --version                 Print version"]

/-- Runs a command with these arguments. The result is its exit code: zero for success, that of the
error for a plot that fails, two for a wrong command line. -/
def run (arguments : List String) : m UInt32 := do
  match Invocation.ofArguments arguments with
  | .error fault =>
    Host.say ("error: " ++ fault.message)
    return 2
  | .ok .version =>
    Host.print version
    return 0
  | .ok .help =>
    Host.print (String.intercalate "\n" help)
    return 0
  | .ok (.plot request) =>
    match ← plot request with
    | .ok _ => return 0
    | .error e =>
      e.lines.forM Host.say
      return e.code

end Command

/-- What a command leaves behind. -/
structure Outcome where
  /-- The exit code. -/
  code : UInt32
  /-- The files and output afterwards. -/
  desk : Desk

/-- Runs a command on files and input. -/
def Command.outcome (files : FileTree) (input : String) (arguments : List String) : Outcome :=
  let (code, desk) := (Command.run arguments : StateM Desk UInt32).run ⟨files, input, [], []⟩
  ⟨code, desk⟩

end CurvePlot
