import EtlPlatform.Library.CellWrites
import EtlPlatform.Library.CursorLoop
import EtlPlatform.Library.Failing
import EtlPlatform.Library.KeysetFeed
import EtlPlatform.Library.LabelledRun
import EtlPlatform.Library.OffsetPaging
import EtlPlatform.Library.OwedWrites
import EtlPlatform.Library.Pages
import EtlPlatform.Library.PartialView
import EtlPlatform.Library.RankedList
import EtlPlatform.Library.Retry
import EtlPlatform.Library.RunAccounts
import EtlPlatform.Library.ServiceCalls
import EtlPlatform.Library.SortedPage
import EtlPlatform.Model.BatchLoop
import EtlPlatform.Model.Datetime
import EtlPlatform.Model.Deployment
import EtlPlatform.Model.Endpoints
import EtlPlatform.Model.Errors
import EtlPlatform.Model.FullRuns
import EtlPlatform.Model.IncrementalRuns
import EtlPlatform.Model.PatchRequests
import EtlPlatform.Model.Process
import EtlPlatform.Model.PyText
import EtlPlatform.Model.Repos
import EtlPlatform.Model.Schemas
import EtlPlatform.Model.SearchClient
import EtlPlatform.Model.Service
import EtlPlatform.Model.Snapshot
import EtlPlatform.Model.StatusRequests
import EtlPlatform.Model.Store
import EtlPlatform.Model.System
import EtlPlatform.Model.Transformers
import EtlPlatform.Model.Values
import EtlPlatform.Model.Writers
import EtlPlatform.Proofs.AllowedTargets
import EtlPlatform.Proofs.AttemptBudget
import EtlPlatform.Proofs.BatchAtomicity
import EtlPlatform.Proofs.BatchMeaning
import EtlPlatform.Proofs.BatchRule
import EtlPlatform.Proofs.BatchSizes
import EtlPlatform.Proofs.BoundedTicks
import EtlPlatform.Proofs.BulkWrites
import EtlPlatform.Proofs.Claims
import EtlPlatform.Proofs.CompleteRuns
import EtlPlatform.Proofs.Configuration
import EtlPlatform.Proofs.ConvergentRuns
import EtlPlatform.Proofs.CreationRules
import EtlPlatform.Proofs.CrossFieldRaces
import EtlPlatform.Proofs.CursorColumns
import EtlPlatform.Proofs.DeliveredRows
import EtlPlatform.Proofs.Deliveries
import EtlPlatform.Proofs.Delivery
import EtlPlatform.Proofs.DispatchFlow
import EtlPlatform.Proofs.DispatchOutcome
import EtlPlatform.Proofs.DispatchProjection
import EtlPlatform.Proofs.DueRows
import EtlPlatform.Proofs.ExactRuns
import EtlPlatform.Proofs.ExecuteSteps
import EtlPlatform.Proofs.Exhaustion
import EtlPlatform.Proofs.FailedPipelines
import EtlPlatform.Proofs.ForwardCheckpoints
import EtlPlatform.Proofs.FullCoverage
import EtlPlatform.Proofs.FullRounds
import EtlPlatform.Proofs.FullRunners
import EtlPlatform.Proofs.FullSteps
import EtlPlatform.Proofs.ImportedModules
import EtlPlatform.Proofs.IncrementalPlan
import EtlPlatform.Proofs.LoopProgress
import EtlPlatform.Proofs.MutualExclusion
import EtlPlatform.Proofs.NoMissedUpdate
import EtlPlatform.Proofs.NullKeys
import EtlPlatform.Proofs.NullableTables
import EtlPlatform.Proofs.PatchAnswers
import EtlPlatform.Proofs.PatchSteps
import EtlPlatform.Proofs.PauseBound
import EtlPlatform.Proofs.PausedMeansStopped
import EtlPlatform.Proofs.PipelineIsolation
import EtlPlatform.Proofs.PipelineProjection
import EtlPlatform.Proofs.PlanRounds
import EtlPlatform.Proofs.ProcessFrame
import EtlPlatform.Proofs.Recovery
import EtlPlatform.Proofs.RequestLedger
import EtlPlatform.Proofs.RequestRefinement
import EtlPlatform.Proofs.Resumption
import EtlPlatform.Proofs.RetryLaw
import EtlPlatform.Proofs.RowFeed
import EtlPlatform.Proofs.RunCounters
import EtlPlatform.Proofs.RunHistory
import EtlPlatform.Proofs.RunnerEquivalence
import EtlPlatform.Proofs.RunningGuard
import EtlPlatform.Proofs.SequentialSteps
import EtlPlatform.Proofs.ServedTick
import EtlPlatform.Proofs.Sessions
import EtlPlatform.Proofs.SingleSuccess
import EtlPlatform.Proofs.SinkRows
import EtlPlatform.Proofs.SoundCheckpoints
import EtlPlatform.Proofs.StatusProtocol
import EtlPlatform.Proofs.StatusStatements
import EtlPlatform.Proofs.StatusView
import EtlPlatform.Proofs.StepCases
import EtlPlatform.Proofs.StoredConfig
import EtlPlatform.Proofs.TaskPlans
import EtlPlatform.Proofs.TickService
import EtlPlatform.Proofs.TransformIsolation
import EtlPlatform.Proofs.UndisturbedRuns
import EtlPlatform.Proofs.WrittenRows
