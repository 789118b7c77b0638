import CurvePlot.Formula.Grid

/-!
# Lists of values

Parameters and ranges are written as lists of values between commas. A value is a number, perhaps
with separators between groups of digits, or a constant expression such as `2pi` or `1/3`. Empty
places, the agreed words for "missing", and everything without a finite value count as missing;
reading a list never fails.
-/

namespace CurvePlot

/-- What a reader of formulas goes by. -/
structure ReadingRules where
  /-- The words for a missing value; upper and lower case are not told apart. -/
  missingWords : List String
  /-- The character that may stand between groups of digits. -/
  groupSeparator : Option Char
  /-- The most points that a formula is sampled at. -/
  maxSamples : Nat
  /-- The range of formulas that name none; angles do not follow it. -/
  defaultRange : Option PartialRange
deriving DecidableEq

namespace ReadingRules

/-- The rules when nothing else is agreed. -/
def standard : ReadingRules where
  missingWords := ["nan", "null", "none", "undefined"]
  groupSeparator := none
  maxSamples := 100000
  defaultRange := none

/-- Whether a word says that the value is missing. -/
def isMissingWord (rules : ReadingRules) (word : List Char) : Bool :=
  rules.missingWords.any fun missing => Text.lower missing.toList == Text.lower word

/-- The characters of a value without the separators of its groups. -/
def ungrouped (rules : ReadingRules) (text : List Char) : List Char :=
  match rules.groupSeparator with
  | some separator => text.filter fun c => c != separator
  | none => text

end ReadingRules

/-- The value of a constant expression, if the text is one and its value is finite. -/
def constantValue? (text : List Char) : Option Float :=
  match Expression.ofText text with
  | .ok e => if e.isConstant then (e.evaluate 0).toOption else none
  | .error _ => none

/-- The finite value that a text writes, if it writes one. -/
def readValue? (rules : ReadingRules) (text : List Char) : Option Float :=
  let text := Text.trim text
  if text.isEmpty || rules.isMissingWord text then none
  else
    let digits := rules.ungrouped text
    match Double.read? digits with
    | some value => if value.isFinite then some value else none
    | none => constantValue? digits

/-- The values between the commas of a text; a blank text has none. -/
def readValues (rules : ReadingRules) (text : List Char) : List (Option Float) :=
  if (Text.trim text).isEmpty then [] else (Text.pieces ',' text).map (readValue? rules)

/-- A constant expression is only taken with a finite value. -/
theorem isFinite_of_constantValue? {text : List Char} {v : Float}
    (h : constantValue? text = some v) : v.isFinite = true := by
  unfold constantValue? at h
  split at h
  · next e _ =>
    split at h
    · cases he : e.evaluate 0 with
      | error _ => rw [he] at h; cases h
      | ok w => rw [he] at h; cases h; exact Expr.isFinite_of_evaluate he
    · cases h
  · cases h

/-- A value that is read is finite. -/
theorem isFinite_of_readValue? {rules : ReadingRules} {text : List Char} {v : Float}
    (h : readValue? rules text = some v) : v.isFinite = true := by
  simp only [readValue?] at h
  split at h
  · cases h
  · split at h
    · split at h
      · cases h; assumption
      · cases h
    · exact isFinite_of_constantValue? h

end CurvePlot
