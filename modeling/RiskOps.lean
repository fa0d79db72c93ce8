import RiskOps.Telemetry.StoreDelivery
import RiskOps.Telemetry.StoreConfluence
import RiskOps.Telemetry.StoreSpec
import RiskOps.Telemetry.Store
import RiskOps.Telemetry.DetectionMatches
import RiskOps.Telemetry.DetectionScan
import RiskOps.Telemetry.DetectionSpec
import RiskOps.Telemetry.Detection
import RiskOps.Lib.Components
import RiskOps.Telemetry.SshdFaithful
import RiskOps.Telemetry.SshdForgery
import RiskOps.Telemetry.SshdGrammar
import RiskOps.Telemetry.SshdParse
import RiskOps.Lib.IpText
import RiskOps.Lib.PyText
import RiskOps.Control.SshBlockReplay
import RiskOps.Control.SshBlockReplies
import RiskOps.Control.SshBlockVerified
import RiskOps.Control.SshBlockSpec
import RiskOps.Control.SshBlockControl
import RiskOps.Lib.IpAddress
import RiskOps.Pipeline.RemediationSound
import RiskOps.Pipeline.HardenSshSpec
import RiskOps.Pipeline.Remediation
import RiskOps.Policy.Engine
import RiskOps.Policy.Scopes
import RiskOps.Lib.Json
import RiskOps.Core.Ids
import RiskOps.Lib.Regex
import RiskOps.Lib.Table
import RiskOps.Lib.Run
import RiskOps.Telemetry.AiJobs
import RiskOps.Telemetry.AiJobsSpec
import RiskOps.Telemetry.AiJobsPaid
import RiskOps.Telemetry.AiJobsBudget
import RiskOps.Telemetry.AiJobsLease
import RiskOps.Lib.Sliding
import RiskOps.Telemetry.WebDetection
import RiskOps.Telemetry.WebDetectionSpec
import RiskOps.Lib.Membership
import RiskOps.Lib.CaseBook
import RiskOps.Telemetry.HttpIncidents
import RiskOps.Telemetry.HttpCases
import RiskOps.Telemetry.HttpStore
import RiskOps.Telemetry.HttpDelivery
import RiskOps.Telemetry.HttpParse
import RiskOps.Telemetry.NetworkParse
import RiskOps.Telemetry.NetworkProtocol
import RiskOps.Telemetry.NetworkStore
import RiskOps.Telemetry.NetworkStoreSpec
import RiskOps.Telemetry.NetworkWire
import RiskOps.Telemetry.NetworkDetection
import RiskOps.Telemetry.NetworkDetectionSpec
import RiskOps.Telemetry.NetworkIncidents
import RiskOps.Telemetry.NetworkCases
import RiskOps.Telemetry.NetworkRuns
import RiskOps.Telemetry.NetworkExport
import RiskOps.Telemetry.NetworkCollector
import RiskOps.Telemetry.NetworkExactlyOnce
import RiskOps.Lib.PyJson
import RiskOps.Telemetry.AiJobsOpen
import RiskOps.Telemetry.AiSummary
import RiskOps.Triage.Evidence
import RiskOps.Triage.Api
import RiskOps.Joint.CaseStore
import RiskOps.Joint.CaseStoreSpec
import RiskOps.Joint.CaseStoreCounters
import RiskOps.Joint.CaseStoreCycles
import RiskOps.Joint.CaseStoreRecovery
import RiskOps.Control.Jobs
import RiskOps.Control.JobsSpec
import RiskOps.Control.JobsRuns
import RiskOps.Lib.CaseHistory
import RiskOps.Telemetry.CaseRevisions
import RiskOps.Lib.Parents
import RiskOps.Telemetry.StoreOperations
import RiskOps.Telemetry.StoreBookkeeping
import RiskOps.Telemetry.StoreTriage
import RiskOps.Telemetry.StoreExactlyOnce
import RiskOps.Triage.Settlement
import RiskOps.Lib.Canonical
import RiskOps.Joint.Evidence
import RiskOps.Joint.Correlate
import RiskOps.Joint.Reader
import RiskOps.Joint.CorrelateSound
import RiskOps.Joint.Scope
import RiskOps.Joint.ScopeCanonical
import RiskOps.Lib.PyJsonRound
import RiskOps.Lib.PyJsonStrict
import RiskOps.Lib.PyJsonCanonical
import RiskOps.Storage.AuditLog
import RiskOps.Storage.AuditTimeline
import RiskOps.Telemetry.NoticeBridge
import RiskOps.Telemetry.CaseOutbox
import RiskOps.Telemetry.StoreRecords
import RiskOps.Telemetry.EventPages
import RiskOps.Lib.Keyset
import RiskOps.Telemetry.SshBriefing
import RiskOps.Lib.Tally
import RiskOps.Telemetry.HttpBriefing
import RiskOps.Telemetry.JournalCollector
import RiskOps.Telemetry.JournalIntake
import RiskOps.Telemetry.JournalDelivery
import RiskOps.Joint.ReaderSpec
import RiskOps.Joint.NetworkReadable
import RiskOps.Joint.Catalog
import RiskOps.Joint.CatalogSpec
import RiskOps.Joint.CatalogRun
import RiskOps.Lib.Base64
import RiskOps.Lib.PyJsonAscii
import RiskOps.Joint.CaseQuery
import RiskOps.Joint.CaseQuerySpec
import RiskOps.Joint.CaseQueryFrozen
import RiskOps.Lib.PyCodec
import RiskOps.Lib.PyDict
import RiskOps.Telemetry.NetworkGuard
import RiskOps.Telemetry.NetworkGuardSpec
import RiskOps.Lib.Shlex
import RiskOps.Telemetry.FirewallRules
import RiskOps.Telemetry.FirewallRulesSpec
import RiskOps.Telemetry.NoticePair
import RiskOps.Lib.Directory
import RiskOps.Lib.IsoTime
import RiskOps.Lib.Faulty
import RiskOps.Joint.Refresh
import RiskOps.Joint.RefreshSpec
import RiskOps.Joint.RefreshRun
import RiskOps.Telemetry.RecoveryPackage
import RiskOps.Telemetry.RecoveryPrune
import RiskOps.Telemetry.Collection
import RiskOps.Telemetry.CollectionSpec
import RiskOps.Telemetry.CollectionGaps
import RiskOps.Telemetry.Pages
import RiskOps.Telemetry.Reparse
import RiskOps.Telemetry.StoreInvariant
import RiskOps.Telemetry.BlockedPeers
import RiskOps.Lib.Clusters
import RiskOps.Telemetry.DetectionClusters
import RiskOps.Telemetry.StoreIdentity
import RiskOps.Telemetry.StoreScores
import RiskOps.Telemetry.StoreMoments
import RiskOps.Telemetry.StoreComplete
import RiskOps.Telemetry.StoreReparse
import RiskOps.Telemetry.StoreMaintenance
import RiskOps.Telemetry.Notifications
import RiskOps.Lib.Decimal
import RiskOps.Lib.Grouped
import RiskOps.Lib.UnionFind
import RiskOps.Lib.Sweep
import RiskOps.Reduction.Dedup
import RiskOps.Reduction.Correlate
import RiskOps.Triage.Budget
