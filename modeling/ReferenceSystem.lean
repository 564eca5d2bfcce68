import ReferenceSystem.Newest
import ReferenceSystem.Runs
import ReferenceSystem.Samples
import ReferenceSystem.SamplesSound
import ReferenceSystem.Provenance
import ReferenceSystem.Nodes
import ReferenceSystem.System
import ReferenceSystem.SystemSound
import ReferenceSystem.HistorySound
import ReferenceSystem.SourceSound
import ReferenceSystem.LimitsSound
import ReferenceSystem.Roots
import ReferenceSystem.RootsSound
import ReferenceSystem.CanonicalSound
import ReferenceSystem.TraceSound
import ReferenceSystem.Lineage
import ReferenceSystem.Autoware
import ReferenceSystem.LineageSound
import ReferenceSystem.AtomicSound
import ReferenceSystem.ReductionSound
import ReferenceSystem.ConsumptionSound
import ReferenceSystem.SamplePath
import ReferenceSystem.SamplePathSound
import ReferenceSystem.ReportsSound
import ReferenceSystem.PlannerSound
import ReferenceSystem.Moments
import ReferenceSystem.Statistics
import ReferenceSystem.Tracking
import ReferenceSystem.TrackingSound
import ReferenceSystem.NumberingSound
import ReferenceSystem.Handles
import ReferenceSystem.Stream
import ReferenceSystem.Json
import ReferenceSystem.JsonSound
import ReferenceSystem.Schedule
import ReferenceSystem.ScheduleSound
import ReferenceSystem.ScheduleFileSound
import ReferenceSystem.RecordTexts
import ReferenceSystem.RecordTextsSound
import ReferenceSystem.QuotingSound
import ReferenceSystem.IdentitySound
import ReferenceSystem.PipeSound
import ReferenceSystem.Best
import ReferenceSystem.Selection
import ReferenceSystem.SelectionSound
import ReferenceSystem.PrioritySound
import ReferenceSystem.Executor
import ReferenceSystem.ExecutorSound
import ReferenceSystem.Membership
import ReferenceSystem.MembershipSound
import ReferenceSystem.RemovalSound
import ReferenceSystem.LifeSound
import ReferenceSystem.StaticExecutor
import ReferenceSystem.StaticSound
import ReferenceSystem.StaticPassSound
import ReferenceSystem.Pick
import ReferenceSystem.DefaultExecutor
import ReferenceSystem.DefaultSound
import ReferenceSystem.ThreadsSound
import ReferenceSystem.CancelSound
import ReferenceSystem.SpinSomeSound
