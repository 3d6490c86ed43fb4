import DataRelay.AiPolicy.Enforcement
import DataRelay.AiPolicy.PromptInspection
import DataRelay.AiPolicy.ProviderPost
import DataRelay.AiPolicy.RedactedPayload
import DataRelay.AiPolicy.Redaction
import DataRelay.AiPolicy.ResponseInspection
import DataRelay.Auth.Mfa
import DataRelay.Auth.MfaProtocol
import DataRelay.Auth.MfaRules
import DataRelay.Auth.RoleLattice
import DataRelay.Auth.RouteAccess
import DataRelay.Backfill.JobHistory
import DataRelay.Backfill.Lifecycle
import DataRelay.Classification.RouteStage
import DataRelay.Connectors.Atomicity
import DataRelay.Connectors.Catalog
import DataRelay.Connectors.DependencyIssues
import DataRelay.Connectors.DependencyValidity
import DataRelay.Connectors.Effects
import DataRelay.Connectors.Lifecycle
import DataRelay.Connectors.Publish
import DataRelay.Connectors.PublishFrame
import DataRelay.Connectors.ReadCache
import DataRelay.Connectors.Requirements
import DataRelay.Connectors.RollbackUndo
import DataRelay.Connectors.VersionMatchers
import DataRelay.Dedup.Queue
import DataRelay.Dedup.QueueExactness
import DataRelay.Dedup.Registry
import DataRelay.Dedup.SameOutcome
import DataRelay.Delivery.ReplayRows
import DataRelay.Delivery.RouteEffects
import DataRelay.Delivery.SendRoute
import DataRelay.Delivery.SendTruth
import DataRelay.Enrichment.FieldPaths
import DataRelay.Enrichment.KeepExisting
import DataRelay.Enrichment.RuleExecutor
import DataRelay.Enrichment.RuleValidation
import DataRelay.Enrichment.TraceAgreement
import DataRelay.Formatters.MessagePrefix
import DataRelay.Formatters.Rfc5425
import DataRelay.Governance.ApprovalIntegrity
import DataRelay.Governance.PolicyLifecycle
import DataRelay.Lib.BoundedCollect
import DataRelay.Lib.Dict
import DataRelay.Lib.FileLock
import DataRelay.Lib.FixedWindow
import DataRelay.Lib.Framing
import DataRelay.Lib.Json
import DataRelay.Lib.JsonCanonical
import DataRelay.Lib.JsonParting
import DataRelay.Lib.JsonPath
import DataRelay.Lib.JsonText
import DataRelay.Lib.JsonTwins
import DataRelay.Lib.KeyedQueue
import DataRelay.Lib.Keyset
import DataRelay.Lib.LetterCase
import DataRelay.Lib.LimitedScan
import DataRelay.Lib.Memo
import DataRelay.Lib.Months
import DataRelay.Lib.OldestFirst
import DataRelay.Lib.Outcomes
import DataRelay.Lib.Pruning
import DataRelay.Lib.PyRepr
import DataRelay.Lib.PyText
import DataRelay.Lib.Raising
import DataRelay.Lib.ReadCommitted
import DataRelay.Lib.Reordering
import DataRelay.Lib.RunLog
import DataRelay.Lib.Splicing
import DataRelay.Lib.Steps
import DataRelay.Lib.TokenBucket
import DataRelay.Lib.UtcTime
import DataRelay.Logs.AggregateCoherence
import DataRelay.Logs.IncrementalAggregates
import DataRelay.Logs.Partitions
import DataRelay.Logs.Retention
import DataRelay.Logs.RetentionSessions
import DataRelay.Mapping.ConcretePaths
import DataRelay.Mapping.PassThrough
import DataRelay.Mapping.ResidualExactness
import DataRelay.Notifications.Outbox
import DataRelay.Notifications.OutboxProtocol
import DataRelay.Notifications.OutboxRules
import DataRelay.Protection.Batch
import DataRelay.Protection.Coverage
import DataRelay.Protection.Engine
import DataRelay.Protection.FieldPathParser
import DataRelay.Protection.LiteralJoin
import DataRelay.Protection.MaskedTwins
import DataRelay.Protection.Modes
import DataRelay.Protection.RuleOrder
import DataRelay.Protection.Rules
import DataRelay.Protection.SelectorAgreement
import DataRelay.Protection.SelectorMarks
import DataRelay.Quarantine.Release
import DataRelay.Quarantine.Retention
import DataRelay.Quarantine.Rewind
import DataRelay.RateLimit.DestinationLimiter
import DataRelay.RateLimit.WindowLimiter
import DataRelay.Replay.Ownership
import DataRelay.Replay.Service
import DataRelay.Replay.Uncertainty
import DataRelay.RoutePolicy.Decision
import DataRelay.RoutePolicy.Enforcement
import DataRelay.RoutePolicy.Stage
import DataRelay.RouteProtection.AutoProtect
import DataRelay.RouteProtection.CacheTransparency
import DataRelay.RouteProtection.FailClosed
import DataRelay.RouteProtection.Noninterference
import DataRelay.RouteProtection.Resolver
import DataRelay.RouteProtection.ResultCache
import DataRelay.Runner.CheckpointGate
import DataRelay.Runner.DedupHistory
import DataRelay.Runner.DynamicRoutes
import DataRelay.Runner.LockExclusion
import DataRelay.Runner.RouteStage
import DataRelay.Runner.StreamRun
import DataRelay.Runner.StreamRuntimeLock
import DataRelay.Scheduler.Workers
import DataRelay.SchemaDrift.Orchestrator
import DataRelay.SchemaDrift.PathCompleteness
import DataRelay.SchemaDrift.PathResolve
import DataRelay.SchemaDrift.Precedence
import DataRelay.SchemaObservation.DriftDetection
import DataRelay.SchemaObservation.DriftHistory
import DataRelay.SchemaObservation.DriftVisibility
import DataRelay.SchemaObservation.Enforcement
import DataRelay.SchemaObservation.OccurrenceTracking
import DataRelay.SchemaObservation.PathRoundTrip
import DataRelay.SchemaObservation.PathWalker
import DataRelay.SchemaObservation.Visits
import DataRelay.Security.MaskedRoundTrip
import DataRelay.Security.MaskingNoninterference
import DataRelay.Security.MovedElements
import DataRelay.Security.Secrets
import DataRelay.SensitiveDetection.Detection
import DataRelay.SensitiveDetection.EveryString
import DataRelay.SensitiveDetection.LeafSegments
import DataRelay.SensitiveDetection.StringSamples
import DataRelay.Sources.CheckpointAgreement
import DataRelay.Sources.DatabasePaging
import DataRelay.Sources.DatabaseQuery
import DataRelay.Sources.DatabaseTies
import DataRelay.Sources.LineResume
import DataRelay.Sources.NdjsonAgreement
import DataRelay.Sources.PollingProgress
import DataRelay.Sources.RecordParsers
import DataRelay.Sources.RemoteFilePolling
import DataRelay.Sources.RemoteNeverSkips
import DataRelay.Sources.ResumeExactness
import DataRelay.Sources.S3NeverSkips
import DataRelay.Sources.S3Polling
import DataRelay.Sources.TransportMetadata
import DataRelay.Syslog.Framing
import DataRelay.Syslog.Sender
import DataRelay.Webhook.Idempotency
import DataRelay.Webhook.PrefixLines
import DataRelay.Webhook.Sender
