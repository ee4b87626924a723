import UmansGate.Lib.Transition
import UmansGate.Lib.Dict
import UmansGate.Lib.Num
import UmansGate.Lib.Table
import UmansGate.Lib.Tickets
import UmansGate.Lib.Json
import UmansGate.Lib.JsonText
import UmansGate.Lib.JsonScan
import UmansGate.Lib.JsonObject
import UmansGate.Lib.Lru
import UmansGate.Lib.Utf8
import UmansGate.Lib.Utf8Decode
import UmansGate.Lib.JsonQuote
import UmansGate.Lib.Double
import UmansGate.Lib.LowerBound
import UmansGate.Lib.Framing
import UmansGate.Lib.JsText
import UmansGate.Lib.JsonRead
import UmansGate.Limiter.Types
import UmansGate.Limiter.CircuitBreaker
import UmansGate.Limiter.Semaphore
import UmansGate.Limiter.Gate
import UmansGate.Limiter.Moves
import UmansGate.Limiter.AccountingTheorems
import UmansGate.Limiter.CapTheorems
import UmansGate.Limiter.AdmissionTheorems
import UmansGate.Limiter.WakeupTheorems
import UmansGate.Limiter.FairnessTheorems
import UmansGate.Limiter.ProgressTheorems
import UmansGate.Limiter.ProbeTheorems
import UmansGate.Limiter.GatingTheorems
import UmansGate.Limiter.ReopenTheorems
import UmansGate.Limiter.ClosingTheorems
import UmansGate.Limiter.LimitTheorems
import UmansGate.Limiter.BorrowTheorems
import UmansGate.Limiter.AcquireTheorems
import UmansGate.Limiter.ShutdownTheorems
import UmansGate.Limiter.AbortTheorems
import UmansGate.Limiter.CallbackTheorems
import UmansGate.Limiter.CooldownTheorems
import UmansGate.Rate.RetryTheorems
import UmansGate.Rate.SlidingWindow
import UmansGate.Rate.WindowTheorems
import UmansGate.Proxy.Forward
import UmansGate.Proxy.LadderTheorems
import UmansGate.Proxy.WatchdogTheorems
import UmansGate.Proxy.Outcomes
import UmansGate.Proxy.PermitTheorems
import UmansGate.Proxy.OnceTheorems
import UmansGate.Proxy.FinalityTheorems
import UmansGate.Queue.ConservationTheorems
import UmansGate.Queue.OrderTheorems
import UmansGate.Queue.WakeTheorems
import UmansGate.Queue.DepthTheorems
import UmansGate.Queue.PacingTheorems
import UmansGate.Store.Captures
import UmansGate.Store.Economics
import UmansGate.Store.AccountingTheorems
import UmansGate.Store.AttributionTheorems
import UmansGate.Store.LostUsageTheorems
import UmansGate.Store.RingBuffer
import UmansGate.Store.Pricing
import UmansGate.Store.PricingTheorems
import UmansGate.Store.WriteWorker
import UmansGate.Store.BatchTheorems
import UmansGate.Store.CountingTheorems
import UmansGate.UsageHistory.Store
import UmansGate.UsageHistory.Daily
import UmansGate.UsageHistory.Jobs
import UmansGate.UsageHistory.LocalPeak
import UmansGate.UsageHistory.PeakTheorems
import UmansGate.UsageHistory.RetentionTheorems
import UmansGate.UsageHistory.SampleTheorems
import UmansGate.UsageHistory.Samples
import UmansGate.UsageHistory.ChainTheorems
import UmansGate.Usage.SseParse
import UmansGate.Usage.ChunkTheorems
import UmansGate.Usage.Capture
import UmansGate.Usage.LimitTheorems
import UmansGate.Vision.Detect
import UmansGate.Vision.Wrapper
import UmansGate.Vision.Slots
import UmansGate.Vision.AlignmentTheorems
import UmansGate.Vision.Signal
import UmansGate.Vision.Handoff
import UmansGate.Vision.HandoffTheorems
import UmansGate.Vision.DescriptionCache
import UmansGate.Vision.LifetimeTheorems
import UmansGate.Vision.Triage
import UmansGate.Vision.ImageProcessor
import UmansGate.Vision.RequestTheorems
import UmansGate.Vision.CachedHandoff
import UmansGate.Vision.FastPathTheorems
import UmansGate.Vision.InFlight
import UmansGate.Vision.InFlightTheorems
import UmansGate.Stamp.Catalog
import UmansGate.Stamp.Fields
import UmansGate.Stamp.Breakpoints
import UmansGate.Stamp.Pipeline
import UmansGate.Stamp.FieldTheorems
import UmansGate.Stamp.BlockTheorems
import UmansGate.Stamp.RunTheorems
import UmansGate.Stamp.LayoutTheorems
import UmansGate.Stamp.ThinkingTheorems
import UmansGate.Stamp.BlockFrameTheorems
import UmansGate.Stamp.FrameTheorems
import UmansGate.Stamp.Inbound
import UmansGate.Stamp.AtomicityTheorems
import UmansGate.Stamp.RestampTheorems
import UmansGate.Config.Value
import UmansGate.Auth.AuthFailureLimiter
import UmansGate.Auth.GuessTheorems
import UmansGate.Config.Defaults
import UmansGate.Config.Validation
import UmansGate.Config.File
import UmansGate.Config.Loader
import UmansGate.Config.SaveTheorems
import UmansGate.Config.ProxyConfig
import UmansGate.Config.Reload
import UmansGate.Config.LoadTheorems
import UmansGate.Server.Components
import UmansGate.Server.ProxyServer
import UmansGate.Server.ReloadTheorems
import UmansGate.Server.UsageTheorems
import UmansGate.Lib.JsonEqual
import UmansGate.Stamp.ValueTheorems
import UmansGate.Stamp.CoherenceTheorems
import UmansGate.UsageHistory.ActivityTheorems
import UmansGate.UsageHistory.BanTheorems
import UmansGate.Vision.PersistenceTheorems
import UmansGate.Vision.Decompose
import UmansGate.Vision.PositionTheorems
import UmansGate.Lib.Joint
import UmansGate.Vision.CacheKeyTheorems
import UmansGate.Vision.Leader
import UmansGate.Vision.LeaderTheorems
import UmansGate.Vision.PostVision
import UmansGate.Vision.BreakpointTheorems
import UmansGate.Lib.JsonRoundTrip
import UmansGate.Stamp.ForwardTheorems
import UmansGate.Stamp.RewalkTheorems
import UmansGate.Stamp.SettleTheorems
import UmansGate.Stamp.IdempotenceTheorems
import UmansGate.Lib.EventStream
import UmansGate.Usage.RoundTripTheorems
import UmansGate.Usage.UsageClient
import UmansGate.Usage.RefreshTheorems
import UmansGate.Usage.DecodeTheorems
import UmansGate.Lib.WordSubstitution
import UmansGate.Lib.StringTokens
import UmansGate.Experiments.RewriteIds
import UmansGate.Experiments.RewriteTheorems
import UmansGate.Experiments.SessionTheorems
import UmansGate.Lib.PieceOrder
import UmansGate.Lib.Numerals
import UmansGate.Updater.Versions
import UmansGate.Updater.VersionTheorems
import UmansGate.Updater.Install
import UmansGate.Updater.InstallTheorems
import UmansGate.Models.ModelInfo
import UmansGate.Models.Client
import UmansGate.Models.CatalogTheorems
import UmansGate.Lib.NearestRank
import UmansGate.Lib.DoubleRank
import UmansGate.Lib.Sql
import UmansGate.Store.Performance
import UmansGate.Store.PercentileTheorems
import UmansGate.Lib.Promises
import UmansGate.Store.WorkerStore
import UmansGate.Store.WorkerTheorems
import UmansGate.Store.ResendTheorems
import UmansGate.Lib.SqlSelect
import UmansGate.Store.MonthSummary
import UmansGate.Store.MonthTheorems
import UmansGate.Store.Compress
import UmansGate.Store.CompressTheorems
import UmansGate.Lib.JsonPrefix
import UmansGate.Lib.JsonLines
