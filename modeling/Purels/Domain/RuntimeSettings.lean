import Purels.Domain.Models

/-!
# Runtime settings

`domain.RuntimeSettingsInput`, the deployment options an administrator may
change, and the persisted row that carries them.
-/

namespace Purels

open Go

/-- `domain.RuntimeSettingsInput`. -/
structure RuntimeSettingsInput where
  aliasMode : GoString := []
  uniqueURLs : Bool := false
  registrationEnabled : Bool := false
  countBots : Bool := false
  totpEnabled : Bool := false
  forwardQuery : Bool := false
  fallbackURL : GoString := []
  autoPruneExpired : Bool := false
  pruneGraceSeconds : Int := 0
  maxLinksPerUser : Int := 0
  destinationDenylist : List GoString := []
  shortDomains : List GoString := []
  healthCheckEnabled : Bool := false
  healthCheckIntervalSeconds : Int := 0
  rateLimitEnabled : Bool := false
  rateLimitLogin : Int := 0
  rateLimitAPI : Int := 0
  rateLimitRedirect : Int := 0
  rateLimitRegister : Int := 0
  rateLimit2FA : Int := 0
  rateLimitOIDC : Int := 0
  deriving DecidableEq

/-- `domain.RuntimeSettings`: the row of the singleton table. -/
structure RuntimeSettings extends RuntimeSettingsInput where
  revision : Int
  updatedAt : Instant := 0
  deriving DecidableEq

end Purels
