import CurvePlot.Text.Digit
import CurvePlot.Text.Reader

/-!
# Dates and times in TOML documents

A moment is a date, a time of day, or both, the latter with an optional distance from universal
time. Date and time are parted by `T`, `t` or one space. Only days of the calendar are dates.
-/

namespace CurvePlot.Toml

open CurvePlot.Text

/-- A number of the given count of digits. -/
def readFixed (count : Nat) (text : List Char) : Option (Nat × List Char) :=
  let digits := text.take count
  if digits.length == count && digits.all isAsciiDigit then
    some (digitsValue digits, text.drop count)
  else none

/-- A number of two digits within bounds. -/
def readTwo (least greatest : Nat) (text : List Char) : Option (Nat × List Char) :=
  (readFixed 2 text).filter fun (value, _) => least ≤ value && value ≤ greatest

/-- Whether a year has a leap day. -/
def isLeapYear (year : Nat) : Bool :=
  year % 4 == 0 && (year % 100 != 0 || year % 400 == 0)

/-- The number of days of a month. -/
def daysOfMonth (year month : Nat) : Nat :=
  if month == 2 then (if isLeapYear year then 29 else 28)
  else if month == 4 || month == 6 || month == 9 || month == 11 then 30
  else 31

/-- The rest behind a date. -/
def skipDate? (text : List Char) : Option (List Char) := do
  let (year, rest) ← readFixed 4 text
  let (month, rest) ← readTwo 1 12 (← Reader.skip? ['-'] rest)
  let (_, rest) ← readTwo 1 (daysOfMonth year month) (← Reader.skip? ['-'] rest)
  some rest

/-- The rest behind the fraction of a second, if there is one. -/
def skipFraction? : List Char → Option (List Char)
  | '.' :: rest =>
    if (rest.takeWhile isAsciiDigit).isEmpty then none else some (rest.dropWhile isAsciiDigit)
  | rest => some rest

/-- The rest behind a time of day. -/
def skipTime? (text : List Char) : Option (List Char) := do
  let (_, rest) ← readTwo 0 23 text
  let (_, rest) ← readTwo 0 59 (← Reader.skip? [':'] rest)
  let (_, rest) ← readTwo 0 60 (← Reader.skip? [':'] rest)
  skipFraction? rest

/-- The rest behind the distance from universal time. -/
def skipOffset? : List Char → Option (List Char)
  | [] => none
  | c :: rest =>
    if c == 'Z' || c == 'z' then some rest
    else if c == '+' || c == '-' then do
      let (_, rest) ← readTwo 0 23 rest
      let (_, rest) ← readTwo 0 59 (← Reader.skip? [':'] rest)
      some rest
    else none

/-- The rest behind the time of day that follows a date, if one does. -/
def skipTimeOfDate? : List Char → Option (List Char)
  | [] => none
  | c :: rest =>
    if c == 'T' || c == 't' || c == ' ' then
      (skipTime? rest).map fun after => (skipOffset? after).getD after
    else none

/-- The rest behind a moment. -/
def skipMoment? (text : List Char) : Option (List Char) :=
  match skipDate? text with
  | some rest => some ((skipTimeOfDate? rest).getD rest)
  | none => skipTime? text

/-- A moment as written. -/
def readMoment (text : List Char) : Option (String × List Char) :=
  (skipMoment? text).map fun rest =>
    (String.ofList (text.take (text.length - rest.length)), rest)

end CurvePlot.Toml
