import MonitoringHub.Lib.StepRun
import MonitoringHub.Lib.RowTable
import MonitoringHub.Lib.Text
import MonitoringHub.Lib.Trim
import MonitoringHub.Lib.GatedCounter
import MonitoringHub.Alerts.EffectiveLimits
import MonitoringHub.Alerts.Resolution
import MonitoringHub.Alerts.DeadGap
import MonitoringHub.Alerts.AlertRecord
import MonitoringHub.Alerts.SlowedPolling
import MonitoringHub.Cache.Invalidation
import MonitoringHub.Cache.BackendAgreement
import MonitoringHub.Cache.RangeSharing
import MonitoringHub.Cache.SingleFlight
import MonitoringHub.Cache.ForcedRefresh
import MonitoringHub.Cache.ErrorScopes
import MonitoringHub.Access.FilterSoundness
import MonitoringHub.Access.Delegation
import MonitoringHub.Sessions.Revocation
import MonitoringHub.Synthetic.UptimeAlert
import MonitoringHub.Synthetic.StaleProbe
import MonitoringHub.Synthetic.DailyStats
import MonitoringHub.Incidents.OneIncident
import MonitoringHub.Maintenance.Silencing
import MonitoringHub.HostAgent.OrphanedAlert
import MonitoringHub.HostAgent.DiskQueue
import MonitoringHub.HostAgent.RetryPacing
import MonitoringHub.HostAgent.QueueDirectory
import MonitoringHub.Environments.VocabularyAgreement
import MonitoringHub.Alerts.RollupTotals
import MonitoringHub.Alerts.FreshnessWindow
import MonitoringHub.Collector.SlowCoverage
import MonitoringHub.Collector.Leader
import MonitoringHub.Browser.DataCache
import MonitoringHub.Cost.RefreshDue
import MonitoringHub.Cost.HistoryWindows
import MonitoringHub.Alerts.Escalation
import MonitoringHub.Discovery.AccountCycle
import MonitoringHub.Synthetic.CertNotices
import MonitoringHub.Alerts.RollupCache
import MonitoringHub.Collector.AgentPreference
import MonitoringHub.Alerts.Flapping
import MonitoringHub.Alerts.LearnedLines
import MonitoringHub.Ingest.MountNames
import MonitoringHub.Ingest.Delivery
import MonitoringHub.Ingest.CounterRestart
import MonitoringHub.Ingest.Landing
import MonitoringHub.Ingest.LastValue
import MonitoringHub.Ingest.WatchedServices
import MonitoringHub.Ingest.ConfigAgreement
import MonitoringHub.Administration.LastAdmin
import MonitoringHub.Administration.PrivilegeGrowth
import MonitoringHub.Administration.BindingGate
import MonitoringHub.Administration.LegacyShim
import MonitoringHub.Reports.JobLifecycle
import MonitoringHub.Reports.ScheduleClaims
import MonitoringHub.Login.RateLimit
import MonitoringHub.Login.Lockout
import MonitoringHub.EmailRules.MailThrottle
import MonitoringHub.EmailRules.Sweep
import MonitoringHub.Environments.Convergence
import MonitoringHub.TagSync.AbsenceEvidence
import MonitoringHub.TagSync.OrderIndependence
import MonitoringHub.Topology.DiscoveryPolls
import MonitoringHub.Ingest.Inventory
import MonitoringHub.Alerts.StaticFallback
import MonitoringHub.Environments.Suggestions
import MonitoringHub.Reports.ClockChanges
import MonitoringHub.Reports.ReportPeriods
import MonitoringHub.Collector.StandardPhase
import MonitoringHub.Collector.AnchoredTiers
import MonitoringHub.TagScript.ScriptLines
import MonitoringHub.TagScript.Coverage
import MonitoringHub.Baselines.SpikeClipping
import MonitoringHub.Baselines.HistoryAlone
import MonitoringHub.Collector.TargetHealth
import MonitoringHub.Collector.CutRequests
import MonitoringHub.Collector.ExecuteGmd
import MonitoringHub.Collector.UsageMetering
import MonitoringHub.Alerts.HealthScore
import MonitoringHub.Slo.BudgetStatus
import MonitoringHub.Console.LinkHosts
import MonitoringHub.Cost.StoredAmounts
import MonitoringHub.Administration.LeftBehind
import MonitoringHub.Alerts.RowChoice
import MonitoringHub.Alerts.WholeReadings
import MonitoringHub.Collector.RampForecasts
import MonitoringHub.Login.ReturnTarget
import MonitoringHub.Ingest.CredentialRetention
import MonitoringHub.Ingest.KeyBudget
import MonitoringHub.Ingest.PayloadBuild
