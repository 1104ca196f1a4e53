import Purels.Lib.Processes
import Purels.Service.Analytics
import Purels.Store.Oidc

/-!
# Tracking settings, statement by statement

The row of `analytics_settings`, and the calls of `AnalyticsService` in one process: each
statement of the store and each publication of the snapshot is one step.

* `AnalyticsRow` and `StoredAnalytics`: the row, and what every read returns of it.
* `AnalyticsWorld`: the row and the snapshot.  `commits` is every configuration that the row
  has held, oldest first; no step reads it.
* `AnalyticsCall`, `nextAnalyticsStep` and `analyticsCalls`: the steps of `Get`, `Refresh` and
  `Update`.
-/

namespace Purels.Service

open Go Store Lib

/-! ## The row -/

/-- The row of `analytics_settings`. -/
structure AnalyticsRow where
  ga4MeasurementID : Option GoString := none
  gtmContainerID : Option GoString := none
  googleTagID : Option GoString := none
  matomoURL : Option GoString := none
  matomoSiteID : Option GoString := none
  clarityProjectID : Option GoString := none
  updatedAt : Instant := 0
  deriving DecidableEq

/-- `domain.AnalyticsSettings`, with the time of the last edit. -/
structure StoredAnalytics where
  settings : AnalyticsSettings
  updatedAt : Instant
  deriving DecidableEq

/-- The columns of a read: what is not set is empty. -/
def AnalyticsRow.toStored (row : AnalyticsRow) : StoredAnalytics where
  settings :=
    { ga4MeasurementID := row.ga4MeasurementID.getD []
      gtmContainerID := row.gtmContainerID.getD []
      googleTagID := row.googleTagID.getD []
      matomoURL := row.matomoURL.getD []
      matomoSiteID := row.matomoSiteID.getD []
      clarityProjectID := row.clarityProjectID.getD [] }
  updatedAt := row.updatedAt

/-- `GetAnalyticsSettings`. -/
def GetAnalyticsSettings (row : Option AnalyticsRow) : Except ServiceError StoredAnalytics :=
  match row with
  | none => .error .notFound
  | some row => .ok row.toStored

/-- The row after an update. -/
def updatedAnalytics (settings : AnalyticsSettings) (now : Instant) : AnalyticsRow where
  ga4MeasurementID := nullableText settings.ga4MeasurementID
  gtmContainerID := nullableText settings.gtmContainerID
  googleTagID := nullableText settings.googleTagID
  matomoURL := nullableText settings.matomoURL
  matomoSiteID := nullableText settings.matomoSiteID
  clarityProjectID := nullableText settings.clarityProjectID
  updatedAt := now

/-- The text of the settings can be stored. -/
def storableAnalytics (settings : AnalyticsSettings) : Bool :=
  storableText settings.ga4MeasurementID && storableText settings.gtmContainerID &&
    storableText settings.googleTagID && storableText settings.matomoURL &&
    storableText settings.matomoSiteID && storableText settings.clarityProjectID

/-- The update of `UpdateAnalyticsSettings`: the row it writes. -/
def UpdateAnalyticsSettings (row : Option AnalyticsRow) (settings : AnalyticsSettings)
    (now : Instant) : Except ServiceError AnalyticsRow :=
  if !storableAnalytics settings then .error .database
  else
    match row with
    | none => .error .notFound
    | some _ => .ok (updatedAnalytics settings now)

/-! ## The shared state -/

/-- The row, the snapshot of the process, and the configurations the row has held. -/
structure AnalyticsWorld where
  row : Option AnalyticsRow
  snapshot : Option StoredAnalytics := none
  commits : List StoredAnalytics

namespace AnalyticsWorld

/-- `Current`: without a snapshot, nothing is configured, at the zero time. -/
def Current (w : AnalyticsWorld) : StoredAnalytics :=
  w.snapshot.getD ⟨{}, -62135596800 * second⟩

/-- `publish`. -/
def publish (w : AnalyticsWorld) (settings : StoredAnalytics) : AnalyticsWorld :=
  { w with snapshot := some settings }

/-- The row is replaced. -/
def commit (w : AnalyticsWorld) (row : AnalyticsRow) : AnalyticsWorld :=
  { w with row := some row, commits := w.commits ++ [row.toStored] }

end AnalyticsWorld

/-! ## Calls -/

inductive AnalyticsRequest where
  | get
  | refresh
  | update (input : AnalyticsSettings)

/-- Where a call stands.  `seen` is the number of the configuration that it has read, and
`committed` of the one that it has written itself. -/
inductive AnalyticsCall where
  | idle
  /-- Reads the row, or checks its input and writes it. -/
  | start (request : AnalyticsRequest)
  /-- Reads the row that it has written. -/
  | reread (committed : ℕ)
  /-- Publishes what it has read. -/
  | publish (settings : StoredAnalytics) (seen : ℕ) (committed : Option ℕ)
  | done (result : Except ServiceError StoredAnalytics) (committed : Option ℕ)

/-- A read of the row, to be published. -/
def readAnalytics (w : AnalyticsWorld) (committed : Option ℕ) : AnalyticsCall :=
  match GetAnalyticsSettings w.row with
  | .error e => .done (.error e) committed
  | .ok settings => .publish settings (w.commits.length - 1) committed

section

variable (u : Unicode)

/-- The next step of a call, at a time of the database. -/
def nextAnalyticsStep (w : AnalyticsWorld) (call : AnalyticsCall) (now : Instant) :
    Option (AnalyticsWorld × AnalyticsCall) :=
  match call with
  | .idle => none
  | .start .get => some (w, readAnalytics w none)
  | .start .refresh => some (w, readAnalytics w none)
  | .start (.update input) =>
    match Normalize u input with
    | .error e => some (w, .done (.error e) none)
    | .ok settings =>
      match UpdateAnalyticsSettings w.row settings now with
      | .error e => some (w, .done (.error e) none)
      | .ok row => some (w.commit row, .reread w.commits.length)
  | .reread committed => some (w, readAnalytics w (some committed))
  | .publish settings _ committed => some (w.publish settings, .done (.ok settings) committed)
  | .done _ _ => none

/-- The calls of one process. -/
def analyticsCalls : Process AnalyticsWorld AnalyticsCall Instant where
  step := nextAnalyticsStep u

end

end Purels.Service
