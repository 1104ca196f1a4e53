import Purels.Config.Runtime
import Purels.Go.Durations

/-!
# The settings of the environment

`Load`, as far as `RuntimeDefaults` reads its result, and the settings that a deployment starts
with.

* `env`, `boolEnv`, `intEnv`, `durationEnv`, `hostListEnv`, `fallbackURL`: one variable.
* `Load`: the fields of `Config` that are seeded.
* `RuntimeDefaults`: the clamps of the first row.
-/

namespace Purels.Config

open Go

/-- `os.Getenv`: what is not set is empty. -/
abbrev Environment := GoString → GoString

/-! ## One variable -/

section

variable (u : Unicode) (getenv : Environment)

/-- `env`. -/
def env (key : String) (fallback : GoString) : GoString :=
  if getenv (lit key) = [] then fallback else getenv (lit key)

/-- The parsers of `boolEnv`, `intEnv` and `durationEnv`: a value that is not set or that does
not parse is the fallback. -/
def parsedEnv {α : Type} (parse : GoString → Option α) (key : String) (fallback : α) : α :=
  if getenv (lit key) = [] then fallback else (parse (getenv (lit key))).getD fallback

/-- `boolEnv`. -/
def boolEnv (key : String) (fallback : Bool) : Bool := parsedEnv getenv ParseBool key fallback

/-- `intEnv`. -/
def intEnv (key : String) (fallback : Int) : Int := parsedEnv getenv atoi key fallback

/-- `durationEnv`. -/
def durationEnv (key : String) (fallback : Duration) : Duration :=
  parsedEnv getenv ParseDuration key fallback

/-- The hosts of a comma-separated value. -/
def hostList (value : GoString) : List GoString :=
  ((split 0x2C value).map (foldHost u)).filter fun host => host != []

/-- `hostListEnv`. -/
def hostListEnv (key : String) : List GoString := hostList u (getenv (lit key))

/-- `fallbackURL`. -/
def fallbackURL : GoString :=
  let raw := trimSpace (getenv (lit "FALLBACK_URL"))
  if raw = [] then [] else if validFallback u raw then raw else []

end

/-! ## The configuration -/

/-- One hour. -/
def hour : Duration := 3600 * second

set_option linter.dupNamespace false in
/-- `Config`: the fields that are seeded into the runtime settings. -/
structure Config where
  aliasMode : GoString
  uniqueURLs : Bool
  registrationEnabled : Bool
  countBots : Bool
  forwardQuery : Bool
  fallbackURL : GoString
  autoPruneExpired : Bool
  pruneGrace : Duration
  maxLinksPerUser : Int
  destinationDenylist : List GoString
  shortDomains : List GoString
  healthCheckEnabled : Bool
  healthCheckInterval : Duration
  totpEnabled : Bool
  rateLimitEnabled : Bool
  rateLimitLogin : Int
  rateLimitAPI : Int
  rateLimitRedirect : Int
  rateLimitRegister : Int
  rateLimit2FA : Int
  rateLimitOIDC : Int

/-- `Load`. -/
def Load (u : Unicode) (getenv : Environment) : Config where
  aliasMode := toLower u (env getenv "ALIAS_MODE" (lit "random"))
  uniqueURLs := boolEnv getenv "UNIQUE_URLS" true
  registrationEnabled := boolEnv getenv "REGISTRATION_ENABLED" true
  countBots := boolEnv getenv "COUNT_BOTS" false
  forwardQuery := boolEnv getenv "FORWARD_QUERY" true
  fallbackURL := fallbackURL u getenv
  autoPruneExpired := boolEnv getenv "AUTO_PRUNE_EXPIRED" false
  -- A negative grace would prune links that have not expired yet.
  pruneGrace :=
    let pruneGrace := durationEnv getenv "PRUNE_GRACE" (720 * hour)
    if pruneGrace < 0 then 0 else pruneGrace
  maxLinksPerUser :=
    let maxLinksPerUser := intEnv getenv "MAX_LINKS_PER_USER" 1000
    if maxLinksPerUser < 0 then 0 else maxLinksPerUser
  destinationDenylist := hostListEnv u getenv "DESTINATION_DENYLIST"
  shortDomains := hostListEnv u getenv "SHORT_DOMAINS"
  healthCheckEnabled := boolEnv getenv "HEALTH_CHECK_ENABLED" false
  healthCheckInterval := durationEnv getenv "HEALTH_CHECK_INTERVAL" (24 * hour)
  totpEnabled := boolEnv getenv "TOTP_ENABLED" false
  rateLimitEnabled := boolEnv getenv "RATE_LIMIT_ENABLED" true
  rateLimitLogin := intEnv getenv "RATE_LIMIT_LOGIN" 10
  rateLimitAPI := intEnv getenv "RATE_LIMIT_API" 120
  rateLimitRedirect := intEnv getenv "RATE_LIMIT_REDIRECT" 600
  rateLimitRegister := intEnv getenv "RATE_LIMIT_REGISTER" 5
  rateLimit2FA := intEnv getenv "RATE_LIMIT_2FA" 10
  rateLimitOIDC := intEnv getenv "RATE_LIMIT_OIDC" 60

/-! ## The first row -/

section

variable (u : Unicode)

/-- Both bounds of a clamp of `RuntimeDefaults`. -/
def clampTo (high value : Int) : Int :=
  let value := if value < 0 then 0 else value
  if value > high then high else value

/-- A duration in whole seconds. -/
def seconds (duration : Duration) : Int := duration.tdiv second

/-- The alias mode that is seeded. -/
def defaultAliasMode (aliasMode : GoString) : GoString :=
  let aliasMode := toLower u (trimSpace aliasMode)
  if aliasMode ≠ lit "random" ∧ aliasMode ≠ lit "sequential" then lit "random" else aliasMode

/-- The sweep interval that is seeded: a day instead of none. -/
def defaultInterval (interval : Duration) : Int :=
  let value := if seconds interval ≤ 0 then seconds (24 * hour) else seconds interval
  if value > maxRuntimeHealthCheck then maxRuntimeHealthCheck else value

/-- The fallback URL that is seeded. -/
def defaultFallback (fallbackURL : GoString) : GoString :=
  if fallbackURL ≠ [] ∧ !validFallback u fallbackURL then [] else fallbackURL

/-- A host list that is seeded: it is normalized as a whole, or empty. -/
def defaultHosts (hosts : List GoString) (field : String) : List GoString :=
  match normalizeRuntimeHosts u hosts field with
  | .ok normalized => normalized
  | .error _ => []

/-- `RuntimeDefaults`. -/
def RuntimeDefaults (cfg : Config) : RuntimeSettingsInput where
  aliasMode := defaultAliasMode u cfg.aliasMode
  uniqueURLs := cfg.uniqueURLs
  registrationEnabled := cfg.registrationEnabled
  countBots := cfg.countBots
  totpEnabled := cfg.totpEnabled
  forwardQuery := cfg.forwardQuery
  fallbackURL := defaultFallback u cfg.fallbackURL
  autoPruneExpired := cfg.autoPruneExpired
  pruneGraceSeconds := clampTo maxRuntimeGrace (seconds cfg.pruneGrace)
  maxLinksPerUser := clampTo maxRuntimeLinks cfg.maxLinksPerUser
  destinationDenylist := defaultHosts u cfg.destinationDenylist "destination_denylist"
  shortDomains := defaultHosts u cfg.shortDomains "short_domains"
  healthCheckEnabled := cfg.healthCheckEnabled
  healthCheckIntervalSeconds := defaultInterval cfg.healthCheckInterval
  rateLimitEnabled := cfg.rateLimitEnabled
  rateLimitLogin := clampTo maxRuntimeRateLimit cfg.rateLimitLogin
  rateLimitAPI := clampTo maxRuntimeRateLimit cfg.rateLimitAPI
  rateLimitRedirect := clampTo maxRuntimeRateLimit cfg.rateLimitRedirect
  rateLimitRegister := clampTo maxRuntimeRateLimit cfg.rateLimitRegister
  rateLimit2FA := clampTo maxRuntimeRateLimit cfg.rateLimit2FA
  rateLimitOIDC := clampTo maxRuntimeRateLimit cfg.rateLimitOIDC

end

end Purels.Config
