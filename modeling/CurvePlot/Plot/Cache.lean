import CurvePlot.Output.Json
import CurvePlot.Plot.Memo
import CurvePlot.Plot.Report

/-!
# Cached reports

Reading and sampling a formula depends on the formula and on the reading rules alone, so that
outcomes can be kept under these two, refusals included. The rules are compared by their key, a
JSON text of all they say; a part of the agreed range that is not finite reads there like a missing
one.
-/

namespace CurvePlot

/-- The rules as a JSON value. -/
def ReadingRules.toJson (rules : ReadingRules) : JsonValue :=
  .object
    [("nan_aliases", .array (rules.missingWords.map JsonValue.string)),
      ("thousands_separator",
        .ofOption (fun c => .string (String.singleton c)) rules.groupSeparator),
      ("max_samples", .ofNat rules.maxSamples),
      ("default_range",
        .ofOption
          (fun range =>
            .object
              [("min", .ofOption .ofFloat range.min), ("max", .ofOption .ofFloat range.max),
                ("step", .ofOption .ofFloat range.step)])
          rules.defaultRange)]

/-- The text under which outcomes for these rules are kept. -/
def ReadingRules.key (rules : ReadingRules) : String :=
  rules.toJson.compact

/-- What an outcome is kept under. -/
structure OutcomeKey where
  /-- The formula as given. -/
  formula : String
  /-- The key of the reading rules. -/
  rules : String
deriving DecidableEq, Repr

/-- Kept outcomes of formulas. -/
abbrev OutcomeCache := MemoTable OutcomeKey (Except FormulaError Series)

namespace OutcomeCache

/-- The outcome that `compute` has for the formula under these rules, from the cache if it is kept
there. -/
def fetch (cache : OutcomeCache) (rules : ReadingRules) (formula : String)
    (compute : Unit → Except FormulaError Series) :
    MemoTable.Fetched OutcomeKey (Except FormulaError Series) :=
  MemoTable.fetch cache ⟨formula, rules.key⟩ compute

/-- The outcomes of all formulas in order, and the cache afterwards. -/
def outcomes (rules : ReadingRules) (cache : OutcomeCache) :
    List String → List (String × Except FormulaError Series) × OutcomeCache
  | [] => ([], cache)
  | formula :: rest =>
    let fetched := fetch cache rules formula fun _ => rules.sample formula
    let (others, final) := outcomes rules fetched.table rest
    ((formula, fetched.result) :: others, final)

/-- The report on a list of formulas, with outcomes taken from the cache where it keeps them, and
the cache afterwards. -/
def run (rules : ReadingRules) (o : DrawingOptions) (cache : OutcomeCache)
    (formulas : List String) : Except MappingError Report × OutcomeCache :=
  let (found, final) := outcomes rules cache formulas
  (Report.ofOutcomes o found, final)

end OutcomeCache

end CurvePlot
