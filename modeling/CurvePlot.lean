import CurvePlot.Plot.Cache
import CurvePlot.Output.Csv
import CurvePlot.Output.GroupJson
import CurvePlot.Output.Svg
import CurvePlot.Toml.Document
import CurvePlot.Settings.Reading
import CurvePlot.Settings.Writing
import CurvePlot.Output.Png
import CurvePlot.Command.Invocation
import CurvePlot.Command.FileTree
import CurvePlot.Command.Run
import CurvePlot.Main
import CurvePlot.Proofs.Plot.CacheTransparency
import CurvePlot.Proofs.Plot.BatchReport
import CurvePlot.Proofs.Expr.PrecedenceReading
import CurvePlot.Proofs.Formula.LogarithmArgument
import CurvePlot.Proofs.Plot.DrawingBounds
import CurvePlot.Proofs.Formula.KeyedExplicit
import CurvePlot.Proofs.Formula.ExponentialMeaning
import CurvePlot.Proofs.Formula.PolynomialMeaning
import CurvePlot.Proofs.Formula.NormalizedDomain
import CurvePlot.Proofs.Plot.SampleCap
import CurvePlot.Proofs.Expr.TreeHeight
import CurvePlot.Proofs.Formula.CollapsedSource
import CurvePlot.Proofs.Expr.TokenPlaces
import CurvePlot.Proofs.Plot.RecentKeys
import CurvePlot.Proofs.Output.CsvRows
import CurvePlot.Proofs.Number.DecimalReading
import CurvePlot.Proofs.Toml.QuotedText
import CurvePlot.Proofs.Toml.NumberText
import CurvePlot.Proofs.Toml.DocumentText
import CurvePlot.Proofs.Command.StoredText
import CurvePlot.Proofs.Settings.RoundTrip
import CurvePlot.Proofs.Formula.CollectedTerms
import CurvePlot.Proofs.Formula.TermPatterns
import CurvePlot.Proofs.Number.SwappedOperands
import CurvePlot.Proofs.Formula.SolvedEquation
import CurvePlot.Proofs.Output.JsonReading
import CurvePlot.Proofs.Output.GroupReading
import CurvePlot.Proofs.Expr.StrictEvaluation
import CurvePlot.Proofs.Formula.LayeredRange
import CurvePlot.Proofs.Formula.SolverAgreement
import CurvePlot.Proofs.Number.RoundedDistance
import CurvePlot.Proofs.Plot.TightExtents
import CurvePlot.Proofs.Plot.OverlayOrder
import CurvePlot.Proofs.Plot.SampledGrid
import CurvePlot.Proofs.Formula.WrittenExpression
import CurvePlot.Proofs.Formula.ClosedForms
import CurvePlot.Proofs.Formula.GridSpacing
import CurvePlot.Proofs.Output.CurveSegments
import CurvePlot.Proofs.Output.GridLines
import CurvePlot.Proofs.Formula.ConstantValues
import CurvePlot.Proofs.Expr.TokenSpacing
import CurvePlot.Proofs.Expr.ConstantExpression
import CurvePlot.Proofs.Command.FailedRuns
import CurvePlot.Proofs.Formula.SignRows
import CurvePlot.Proofs.Expr.NodePlaces
import CurvePlot.Proofs.Output.SegmentStarts
