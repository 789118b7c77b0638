import CurvePlot.Text.Digit
import CurvePlot.Number.Literal

/-!
# Command lines

A command line is a list of options. A long option stands behind two dashes, its value behind `=` or
in the next argument; a short one behind one dash, its value in the same argument or in the next.
An argument that opens with a dash is no value, unless it is the dash alone or the value of
`--range`. Only formulas may be given more than once, and there are no other arguments than options.
The line is read from left to right, and the first fault, or the first question for help or the
version, ends the reading.
-/

namespace CurvePlot

/-- The forms in which a plot is put out. -/
inductive Format where
  /-- A picture of pixels. -/
  | png
  /-- A picture of shapes. -/
  | svg
  /-- A table. -/
  | csv
  /-- A JSON text. -/
  | json
deriving DecidableEq, Repr

/-- The format with a name. -/
def Format.named? (name : String) : Option Format :=
  if name == "png" then some .png
  else if name == "svg" then some .svg
  else if name == "csv" then some .csv
  else if name == "json" then some .json
  else none

/-- What a command line asks to plot. -/
structure Request where
  /-- The formulas on the command line. -/
  formulas : List String := []
  /-- The file with further formulas; a dash means the standard input. -/
  formulaFile : Option String := none
  /-- The range of formulas that name none. -/
  range : Option String := none
  /-- Whether the horizontal axis is logarithmic. -/
  logX : Bool := false
  /-- Whether the vertical axis is logarithmic. -/
  logY : Bool := false
  /-- Whether pictures have a grid. -/
  grid : Bool := false
  /-- The width of the drawing. -/
  width : Option UInt32 := none
  /-- The height of the drawing. -/
  height : Option UInt32 := none
  /-- The margin of the drawing. -/
  margin : Option UInt32 := none
  /-- The form of the output, when one is given. -/
  format : Option Format := none
  /-- The file for the output. -/
  output : Option String := none
  /-- The file with the settings. -/
  settingsFile : Option String := none
  /-- Whether everything that happens is to be told. -/
  debug : Bool := false
deriving DecidableEq, Repr

/-- The options that take no value. -/
inductive Switch where
  /-- A logarithmic horizontal axis. -/
  | logX
  /-- A logarithmic vertical axis. -/
  | logY
  /-- A grid. -/
  | grid
  /-- A full account. -/
  | debug
  /-- The question for the version. -/
  | version
  /-- The question for help. -/
  | help
deriving DecidableEq, Repr

/-- The options that take a value. -/
inductive Setting where
  /-- A formula. -/
  | formula
  /-- The file with further formulas. -/
  | formulaFile
  /-- The range. -/
  | range
  /-- The width. -/
  | width
  /-- The height. -/
  | height
  /-- The margin. -/
  | margin
  /-- The form of the output. -/
  | format
  /-- The file for the output. -/
  | output
  /-- The file with the settings. -/
  | settingsFile
deriving DecidableEq, Repr

/-- An option. -/
inductive CommandOption where
  /-- One that takes no value. -/
  | switch (s : Switch)
  /-- One that takes a value. -/
  | setting (s : Setting)
deriving DecidableEq, Repr

/-- The option with a long name. -/
def CommandOption.named? (name : String) : Option CommandOption :=
  [("expression", .setting .formula), ("file", .setting .formulaFile), ("range", .setting .range),
    ("logscale-x", .switch .logX), ("logscale-y", .switch .logY), ("grid", .switch .grid),
    ("width", .setting .width), ("height", .setting .height), ("margin", .setting .margin),
    ("format", .setting .format), ("output", .setting .output),
    ("config", .setting .settingsFile), ("debug", .switch .debug),
    ("version", .switch .version), ("help", .switch .help)].lookup name

/-- The option with a short name. -/
def CommandOption.lettered? (letter : Char) : Option CommandOption :=
  [('e', .setting .formula), ('f', .setting .formulaFile), ('o', .setting .output),
    ('V', .switch .version), ('h', .switch .help)].lookup letter

/-- Why a command line is refused. -/
inductive UsageFault where
  /-- An argument that is no option. -/
  | unexpected (argument : String)
  /-- An option without its value. -/
  | valueMissing (argument : String)
  /-- An option with a value that it cannot take. -/
  | valueInvalid (value : String)
  /-- A value for an option that takes none. -/
  | valueUnneeded (argument : String)
  /-- An option that is given again. -/
  | repeated (argument : String)
deriving DecidableEq, Repr

/-- The text of the fault. -/
def UsageFault.message : UsageFault → String
  | unexpected argument => "unexpected argument '" ++ argument ++ "' found"
  | valueMissing argument => "a value is required for '" ++ argument ++ "' but none was supplied"
  | valueInvalid value => "invalid value '" ++ value ++ "'"
  | valueUnneeded argument => "unexpected value for '" ++ argument ++ "' found"
  | repeated argument => "the argument '" ++ argument ++ "' cannot be used multiple times"

/-- A length in pixels: an integer from zero to `2 ^ 32 - 1`, which may have a sign. -/
def lengthOf? (text : List Char) : Option UInt32 :=
  let (sign, digits) := splitSign text
  let value := Text.digitsValue digits
  if digits.isEmpty || !digits.all Text.isAsciiDigit || UInt32.size ≤ value then none
  else if sign == some '-' && value != 0 then none
  else some (UInt32.ofNat value)

/-- The path that a value is; it is not empty. -/
def pathOf? (text : String) : Option String :=
  if text.isEmpty then none else some text

namespace Request

/-- A place of the request that is filled for the first time. `argument` is what fills it. -/
def fill {α : Type} (argument value : String) (old : Option α) (read : Option α) :
    Except UsageFault (Option α) :=
  match read, old with
  | none, _ => .error (.valueInvalid value)
  | some _, some _ => .error (.repeated argument)
  | some new, none => .ok (some new)

/-- The request with a value for an option. -/
def set (r : Request) (argument : String) (setting : Setting) (value : String) :
    Except UsageFault Request :=
  match setting with
  | .formula => .ok { r with formulas := r.formulas ++ [value] }
  | .formulaFile =>
    (fill argument value r.formulaFile (pathOf? value)).map fun v => { r with formulaFile := v }
  | .range => (fill argument value r.range (some value)).map fun v => { r with range := v }
  | .width => (fill argument value r.width (lengthOf? value.toList)).map fun v => { r with width := v }
  | .height =>
    (fill argument value r.height (lengthOf? value.toList)).map fun v => { r with height := v }
  | .margin =>
    (fill argument value r.margin (lengthOf? value.toList)).map fun v => { r with margin := v }
  | .format => (fill argument value r.format (Format.named? value)).map fun v => { r with format := v }
  | .output => (fill argument value r.output (pathOf? value)).map fun v => { r with output := v }
  | .settingsFile =>
    (fill argument value r.settingsFile (pathOf? value)).map fun v => { r with settingsFile := v }

/-- A mark of the request that is set for the first time. -/
def mark (argument : String) (old : Bool) : Except UsageFault Bool :=
  if old then .error (.repeated argument) else .ok true

end Request

/-- What a command line asks for. -/
inductive Invocation where
  /-- A plot. -/
  | plot (request : Request)
  /-- The version. -/
  | version
  /-- Help. -/
  | help
deriving DecidableEq, Repr

/-- An argument that opens an option. -/
structure OptionArgument where
  /-- The option. -/
  option : CommandOption
  /-- The value in the same argument. -/
  value : Option String
deriving DecidableEq, Repr

namespace OptionArgument

/-- A long option, without its two dashes. -/
def ofLong? (text : List Char) : Option OptionArgument :=
  let name := text.takeWhile (· != '=')
  let value := match text.dropWhile (· != '=') with
    | [] => none
    | _ :: rest => some (String.ofList rest)
  (CommandOption.named? (String.ofList name)).map fun option => ⟨option, value⟩

/-- A short option, without its dash. What stands behind a switch is not looked at. -/
def ofShort? : List Char → Option OptionArgument
  | [] => none
  | letter :: rest =>
    match CommandOption.lettered? letter with
    | none => none
    | some (.switch s) => some ⟨.switch s, none⟩
    | some (.setting s) =>
      let value := match rest with
        | [] => none
        | '=' :: behind => some (String.ofList behind)
        | _ => some (String.ofList rest)
      some ⟨.setting s, value⟩

/-- The option that an argument opens, if it does. -/
def ofText? (argument : String) : Option OptionArgument :=
  match argument.toList with
  | '-' :: '-' :: text => ofLong? text
  | '-' :: text => ofShort? text
  | _ => none

end OptionArgument

/-- Whether the argument behind an option can be its value. -/
def Setting.takes (setting : Setting) (argument : String) : Bool :=
  setting == .range || argument == "-" || !argument.startsWith "-"

namespace Invocation

/-- What a switch asks for, or the request with the switch set. -/
def flip (r : Request) (argument : String) : Switch → Except UsageFault (Invocation ⊕ Request)
  | .version => .ok (.inl .version)
  | .help => .ok (.inl .help)
  | .logX => (Request.mark argument r.logX).map fun v => .inr { r with logX := v }
  | .logY => (Request.mark argument r.logY).map fun v => .inr { r with logY := v }
  | .grid => (Request.mark argument r.grid).map fun v => .inr { r with grid := v }
  | .debug => (Request.mark argument r.debug).map fun v => .inr { r with debug := v }

/-- Reads the arguments behind those that led to the request `r`. Behind two dashes alone nothing
may follow. -/
def readFrom (r : Request) : List String → Except UsageFault Invocation
  | [] => .ok (.plot r)
  | argument :: rest =>
    if argument == "--" then
      match rest with
      | [] => .ok (.plot r)
      | extra :: _ => .error (.unexpected extra)
    else
      match OptionArgument.ofText? argument with
      | none => .error (.unexpected argument)
      | some ⟨.switch _, some _⟩ => .error (.valueUnneeded argument)
      | some ⟨.switch s, none⟩ =>
        match flip r argument s with
        | .error e => .error e
        | .ok (.inl answer) => .ok answer
        | .ok (.inr next) => readFrom next rest
      | some ⟨.setting s, some value⟩ =>
        match r.set argument s value with
        | .error e => .error e
        | .ok next => readFrom next rest
      | some ⟨.setting s, none⟩ =>
        match rest with
        | [] => .error (.valueMissing argument)
        | value :: others =>
          if s.takes value then
            match r.set argument s value with
            | .error e => .error e
            | .ok next => readFrom next others
          else .error (.valueMissing argument)

/-- What the arguments of a command line ask for. -/
def ofArguments (arguments : List String) : Except UsageFault Invocation :=
  readFrom {} arguments

end Invocation

end CurvePlot
