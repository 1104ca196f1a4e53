import Purels.Properties.Denylist
import Purels.Properties.SelfDestination
import Purels.Properties.ReadIsolation
import Purels.Properties.CacheFreshness
import Purels.Properties.LostUpdate
import Purels.Properties.Capabilities
import Purels.Properties.SelfEdit
import Purels.Properties.FactorKept
import Purels.Properties.SignIns
import Purels.Properties.ConfirmedSecret
import Purels.Properties.SettingsRegister
import Purels.Properties.ClickConservation
import Purels.Properties.CacheTransparency
import Purels.Properties.WriteIsolation
import Purels.Properties.RenderBoundary
import Purels.Properties.CsvRoundTrip
import Purels.Properties.OneCallback
import Purels.Properties.ProbeDial
import Purels.Properties.LocalDestinations
import Purels.Properties.FailedSignIn
import Purels.Config.Secrets
import Purels.Properties.CheckableFactor
import Purels.Properties.PartialEdits
import Purels.Properties.SnapshotOrder
import Purels.Properties.ReachableAlias
import Purels.Properties.FinishedEnrolment
import Purels.Properties.BulkCount
import Purels.Properties.TagLimit
import Purels.Properties.HealthSweep
import Purels.Properties.OneCode
import Purels.Properties.PatchFields
import Purels.Properties.StatedFactor
import Purels.Properties.TokenScopes
import Purels.Properties.DatabaseText
import Purels.Properties.Languages
import Purels.Properties.BulkIds
import Purels.Properties.KeptExpiry
import Purels.Properties.ImportLines
import Purels.Properties.StoredClick
import Purels.Properties.DeviceAgreement
import Purels.Properties.StatsWindow
import Purels.Properties.TrendDays
import Purels.Properties.BootDefaults
import Purels.Properties.SeededHosts
import Purels.Properties.RedirectCell
import Purels.Properties.RateLimits
import Purels.Properties.LifeCycle
import Purels.Security.IPHasher
import Purels.Http.MergeQuery
import Purels.Service.Rules
import Purels.Go.JsonText
import Purels.Service.CaptchaVerify
import Purels.Properties.LinkQuota
import Purels.Service.OidcUsername
import Purels.Go.UrlAddress
import Purels.Properties.ShortUrls
import Purels.Security.Base36
import Purels.Lib.Chunks
import Purels.Security.OneTimeCodes
import Purels.Lib.SqlParams
import Purels.Store.LinkQueries
import Purels.Properties.AcceptedSettings
import Purels.Properties.StoredScripts
import Purels.Properties.SettingsForm
import Purels.Store.OidcAccounts
import Purels.Service.FirstSignIns
import Purels.Properties.FirstSignIns
import Purels.Http.Redirects
import Purels.Properties.Visits
import Purels.Config.Boot
import Purels.Properties.BootAgreement
import Purels.Lib.Progress
import Purels.Properties.SettingsPublish
import Purels.Lib.Joins
import Purels.Properties.StatsAgreement
import Purels.Properties.Backlog
import Purels.Properties.LiveCredentials
import Purels.Lib.HandOver
import Purels.Lib.Pages
import Purels.Store.Audit
import Purels.Http.Audit
import Purels.Properties.AuditTrail
import Purels.Http.Countdown
import Purels.Properties.Countdowns
import Purels.Console.Session
import Purels.Properties.BrowserTabs
