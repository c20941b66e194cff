import ArbExecutor.Checked
import ArbExecutor.QuoteMath
import ArbExecutor.QuoteAccounts
import ArbExecutor.AccountValidation
import ArbExecutor.BestDirection
import ArbExecutor.Bisection
import ArbExecutor.DynamicAmount
import ArbExecutor.RouteExecution
import ArbExecutor.BinArrayLayout
import ArbExecutor.BinPricing
import ArbExecutor.FillLedger
import ArbExecutor.PumpFeeTiers
import ArbExecutor.StagedFill
import ArbExecutor.BinWalk
import ArbExecutor.CurveMeasure
import ArbExecutor.CurveSoundness
import ArbExecutor.ListChoice
import ArbExecutor.SuppliedArrays
import ArbExecutor.SnapshotAgreement
import ArbExecutor.DirectionOutcome
import ArbExecutor.ExactSelection
import ArbExecutor.CurveBuilding
import ArbExecutor.MinimumProbe
import ArbExecutor.DirectionIsolation
import ArbExecutor.SplitFees
import ArbExecutor.ConstantProduct
import ArbExecutor.PumpQuotes
import ArbExecutor.PumpConservation
import ArbExecutor.BoundarySample
import ArbExecutor.CurveShape
import ArbExecutor.DirectCoverage
import ArbExecutor.EarlyStop
import ArbExecutor.CoverageCap
import ArbExecutor.CandidateCoverage
import ArbExecutor.NormalizedValue
import ArbExecutor.RootPrefilter
import ArbExecutor.FailureClass
import ArbExecutor.RangeWidening
import ArbExecutor.FixedParity
import ArbExecutor.AverageRate
import ArbExecutor.MinimumGate
import ArbExecutor.GuardedRuns
import ArbExecutor.SenderPipeline
import ArbExecutor.BatchResume
import ArbExecutor.StageTable
import ArbExecutor.GateAdmission
import ArbExecutor.ManifestWrites
import ArbExecutor.PriceInversion
import ArbExecutor.NewtonRoot
import ArbExecutor.BitTable
import ArbExecutor.BinAddressing
import ArbExecutor.RelativeError
import ArbExecutor.InteriorRoot
import ArbExecutor.ByteRanges
import ArbExecutor.MarketLayouts
import ArbExecutor.AccountPrefixes
import ArbExecutor.AccountImages
import ArbExecutor.DexAdapters
import ArbExecutor.RouteAccounts
import ArbExecutor.RouteHandlers
import ArbExecutor.RouteTraces
import ArbExecutor.RouteSafety
import ArbExecutor.SelectedRoutes
import ArbExecutor.MockDex
import ArbExecutor.BatchMonitor
import ArbExecutor.MonitorSoundness
import ArbExecutor.MonitorReport
import ArbExecutor.MonitorSettling
import ArbExecutor.SignedBatch
import ArbExecutor.BatchReport
import ArbExecutor.SenderProgress
import ArbExecutor.QuoteProbe
import ArbExecutor.RouteRefresh
