import Purels.Domain.RuntimeSettings
import Purels.Security.Links
import Purels.Store.Links

/-!
# The link service

`LinkService`: what its operations check, and what they do to the link tables
one call at a time.

* `normalizeRules`, `normalizeDomain`, `parseExpiry`, `interstitialSeconds`: the
  checks that create and update share.
* `isSelfDestination`, the guard against a link that leads to itself.
* `checkCreate` and `Create`; `planUpdate` and `Update`; `Delete`; `Bulk`.
* `ShortURL`, the public address of a link.
-/

namespace Purels.Service

open Go Security Store

abbrev aliasAttempts : Nat := 5

instance : NeZero aliasAttempts := ⟨by decide⟩
def maxBulkIDs : Nat := 500
def maxRulesPerLink : Nat := 10
def maxRuleValueLength : Nat := 255
def DefaultInterstitialSeconds : Int := 2
def MaxInterstitialSeconds : Int := 60

/-- The deployment-wide field of `LinkService`; the mutable settings are read
from the runtime snapshot at each call. -/
structure LinkService where
  publicURL : GoString
  deriving DecidableEq

/-- A link and whether this call made it. -/
structure CreateResult where
  link : Link
  created : Bool
  deriving DecidableEq

/-- What one `newLink` takes from outside: an identifier, the clock, and the
bytes of `RandomString`, unless reading them fails. -/
structure Draw where
  id : Uuid
  now : Instant
  random : Option (Fin 8 → UInt8)

/-! ## The shared checks -/

/-- `interstitialSeconds`. -/
def interstitialSeconds (requested : Option Int) : Except ServiceError Int :=
  match requested with
  | none => .ok DefaultInterstitialSeconds
  | some seconds =>
    if seconds < 0 ∨ seconds > MaxInterstitialSeconds then
      .error (.invalid "interstitial_seconds must be between 0 and 60")
    else .ok seconds

/-- `parseExpiry`: a blank string is no expiry. -/
def parseExpiry (raw : GoString) : Except ServiceError (Option Instant) :=
  if trimSpace raw = [] then .ok none
  else
    match parseRFC3339 raw with
    | none => .error (.invalid "expires_at must be RFC3339")
    | some t => .ok (some t)

def parseMatchType (raw : GoString) : Option MatchType :=
  if raw = lit "ua_contains" then some .uaContains
  else if raw = lit "device" then some .device
  else none

/-- A code a rule may carry; zero inherits the link's. -/
def ruleCode (code : Int) : Bool := code == 0 || code == 301 || code == 302

section

variable (u : Unicode) (loc : DatabaseLocale)

/-- A destination is well formed and not on the denylist. -/
def checkDestination (denylist : List GoString) (raw : GoString) : Except ServiceError Unit :=
  match ValidateDestination u raw with
  | .error e => .error e
  | .ok () =>
    if HostDenied u raw denylist then .error (.invalid "that destination is not allowed") else .ok ()

/-- The match value as it is stored: a device name is folded. -/
def ruleValue (matchType : MatchType) (raw : GoString) : Except ServiceError GoString :=
  let value := trimSpace raw
  if value = [] then .error (.invalid "match_value is required")
  else if (runes value).length > maxRuleValueLength then
    .error (.invalid "match_value must be at most 255 characters")
  else
    match matchType with
    | .uaContains => .ok value
    | .device =>
      if IsDeviceClass (toLower u value) then .ok (toLower u value)
      else .error (.invalid "match_value must be one of unknown, bot, tablet, mobile or desktop")

/-- One turn of the loop of `normalizeRules`. -/
def normalizeRule (denylist : List GoString) (index : Nat) (rule : LinkRuleInput) :
    Except ServiceError LinkRule :=
  match parseMatchType (trimSpace rule.matchType) with
  | none => .error (.invalid "match_type must be ua_contains or device")
  | some matchType =>
    match ruleValue u matchType rule.matchValue with
    | .error e => .error e
    | .ok matchValue =>
      match checkDestination u denylist rule.destinationURL with
      | .error e => .error e
      | .ok () =>
        if !ruleCode rule.redirectCode then .error (.invalid "redirect_code must be 301 or 302")
        else
          .ok {
            position := index
            matchType := matchType
            matchValue := matchValue
            destinationURL := rule.destinationURL
            redirectCode := rule.redirectCode }

/-- The loop of `normalizeRules`, from the given index. -/
def normalizeRulesFrom (denylist : List GoString) (index : Nat) :
    List LinkRuleInput → Except ServiceError (List LinkRule)
  | [] => .ok []
  | rule :: rules =>
    match normalizeRule u denylist index rule with
    | .error e => .error e
    | .ok out =>
      match normalizeRulesFrom denylist (index + 1) rules with
      | .error e => .error e
      | .ok outs => .ok (out :: outs)

/-- `normalizeRules`. -/
def normalizeRules (rules : List LinkRuleInput) (denylist : List GoString) :
    Except ServiceError (List LinkRule) :=
  if rules.length > maxRulesPerLink then .error (.invalid "a link may have at most 10 rules")
  else normalizeRulesFrom u denylist 0 rules

/-- `normalizeDomain`. -/
def normalizeDomain (raw : GoString) (allowedDomains : List GoString) :
    Except ServiceError GoString :=
  let value := toLower u (trimSpace raw)
  if value = [] then .ok []
  else if containsAny value (lit "/:@ ") then .error (.invalid "domain must be a bare host name")
  else if allowedDomains.contains value then .ok value
  else .error (.invalid "domain is not one of the configured short domains")

/-! ## The guard against redirect loops -/

/-- `isShortHost`. -/
def isShortHost (svc : LinkService) (settings : RuntimeSettingsInput) (host : GoString) : Bool :=
  (match Url.parse u svc.publicURL with
    | some base => equalFold u host base.hostname
    | none => false) ||
  settings.shortDomains.any fun configured => equalFold u host (trimSpace configured)

/-- `isSelfDestination`.  Scheme, query and fragment are ignored. -/
def isSelfDestination (svc : LinkService) (settings : RuntimeSettingsInput) (link : Link)
    (destination : GoString) : Bool :=
  match Url.parse u destination with
  | none => false
  | some parsed =>
    parsed.hostname != [] && isShortHost u svc settings parsed.hostname &&
      trimByte 0x2F parsed.path == link.aliasName

/-- `rejectSelfDestination` for the link's own destination, then
`rejectSelfRuleDestinations`. -/
def rejectSelf (svc : LinkService) (settings : RuntimeSettingsInput) (link : Link) :
    Except ServiceError Unit :=
  if isSelfDestination u svc settings link link.destinationURL then .error .selfDestination
  else if link.rules.any fun rule => isSelfDestination u svc settings link rule.destinationURL then
    .error .selfDestination
  else .ok ()

/-! ## Create -/

/-- What `Create` has checked before it looks for an alias. -/
structure CheckedLink where
  destinationURL : GoString
  title : GoString
  tags : List GoString
  rules : List LinkRule
  domain : GoString
  redirectCode : Int
  expiresAt : GoString
  interstitial : Int
  deriving DecidableEq

/-- The checks at the head of `Create`. -/
def checkCreate (settings : RuntimeSettingsInput) (req : CreateLinkRequest) :
    Except ServiceError CheckedLink :=
  match checkDestination u settings.destinationDenylist req.destinationURL with
  | .error e => .error e
  | .ok () =>
    match NormalizeTitle req.title with
    | .error e => .error e
    | .ok title =>
      match NormalizeTags u req.tags with
      | .error e => .error e
      | .ok tags =>
        match normalizeRules u req.rules settings.destinationDenylist with
        | .error e => .error e
        | .ok rules =>
          match normalizeDomain u req.domain settings.shortDomains with
          | .error e => .error e
          | .ok domain =>
            let code := if req.redirectCode = 0 then 302 else req.redirectCode
            if code ≠ 301 ∧ code ≠ 302 then .error (.invalid "redirect_code must be 301 or 302")
            else
              match interstitialSeconds req.interstitialSeconds with
              | .error e => .error e
              | .ok interstitial =>
                .ok {
                  destinationURL := req.destinationURL
                  title := title
                  tags := tags
                  rules := rules
                  domain := domain
                  redirectCode := code
                  expiresAt := req.expiresAt
                  interstitial := interstitial }

/-- `newLink`, with the rules and the domain `Create` sets on it.  An expiry
that does not parse is dropped. -/
def newLink (checked : CheckedLink) (aliasName : GoString) (draw : Draw) : Link where
  id := draw.id
  aliasName := aliasName
  destinationURL := checked.destinationURL
  title := checked.title
  tags := checked.tags
  redirectCode := checked.redirectCode
  expiresAt := if checked.expiresAt = [] then none else parseRFC3339 checked.expiresAt
  createdAt := draw.now
  updatedAt := draw.now
  interstitialSeconds := checked.interstitial
  domain := checked.domain
  rules := checked.rules

/-- `checkQuotaLimit`. -/
def checkQuota (settings : RuntimeSettingsInput) (ctx : Context) (s : LinkStore) :
    Except ServiceError Unit :=
  match ctx.user with
  | some user =>
    if settings.maxLinksPerUser ≤ 0 ∨ user.unrestricted then .ok ()
    else if settings.maxLinksPerUser ≤ s.CountLinksByOwner user.id then .error .quotaExceeded
    else .ok ()
  | none => .ok ()

/-- `nextAliasMode`. -/
def nextAlias (settings : RuntimeSettingsInput) (draw : Draw) (s : LinkStore) :
    Except ServiceError GoString × LinkStore :=
  if settings.aliasMode = lit "sequential" then (.ok (EncodeBase36 s.NextAliasValue.1), s.NextAliasValue.2)
  else
    match draw.random with
    | some bytes => (.ok (randomString (List.ofFn bytes)), s)
    | none => (.error (.invalid "rand: read failed"), s)

/-- The end of `Create` for one candidate: the loop guard, then the insert. -/
def insertLink (svc : LinkService) (settings : RuntimeSettingsInput) (link : Link)
    (owner : Option Uuid) (s : LinkStore) : Except ServiceError Unit × LinkStore :=
  match rejectSelf u svc settings link with
  | .error e => (.error e, s)
  | .ok () => s.CreateLink link owner

/-- The retry loop of `Create`, one draw an attempt. -/
def createAttempts (svc : LinkService) (settings : RuntimeSettingsInput) (checked : CheckedLink)
    (owner : Option Uuid) : List Draw → LinkStore → Except ServiceError CreateResult × LinkStore
  | [], s => (.error .conflict, s)
  | draw :: draws, s =>
    match nextAlias settings draw s with
    | (.error e, s) => (.error e, s)
    | (.ok aliasName, s) =>
      if AliasReserved u aliasName then createAttempts svc settings checked owner draws s
      else
        let candidate := newLink checked aliasName draw
        match insertLink u svc settings candidate owner s with
        | (.ok (), s) => (.ok ⟨candidate, true⟩, s)
        | (.error e, s) =>
          if e = .conflict then createAttempts svc settings checked owner draws s else (.error e, s)

/-- `Create` with an alias of the caller's own. -/
def createNamed (svc : LinkService) (settings : RuntimeSettingsInput) (ctx : Context)
    (checked : CheckedLink) (aliasName : GoString) (draw : Draw) (s : LinkStore) :
    Except ServiceError CreateResult × LinkStore :=
  match NormalizeAlias u aliasName with
  | .error e => (.error e, s)
  | .ok aliasName =>
    match checkQuota settings ctx s with
    | .error e => (.error e, s)
    | .ok () =>
      let link := newLink checked aliasName draw
      match insertLink u svc settings link ctx.actorID s with
      | (.error e, s) => (.error e, s)
      | (.ok (), s) => (.ok ⟨link, true⟩, s)

/-- The lookup of `UNIQUE_URLS`; none when a link is to be made. -/
def reuseLink (settings : RuntimeSettingsInput) (ctx : Context) (destination : GoString)
    (now : Instant) (s : LinkStore) : Except ServiceError (Option Link) :=
  match ctx.actorID with
  | some actor =>
    if settings.uniqueURLs then
      match s.FindLiveLinkByDestination loc destination actor now with
      | .ok link => .ok (some link)
      | .error .notFound => .ok none
      | .error e => .error e
    else .ok none
  | none => .ok none

/-- `Create`. -/
def Create (svc : LinkService) (settings : RuntimeSettingsInput) (ctx : Context)
    (req : CreateLinkRequest) (now : Instant) (draws : Fin aliasAttempts → Draw) (s : LinkStore) :
    Except ServiceError CreateResult × LinkStore :=
  match checkCreate u settings req with
  | .error e => (.error e, s)
  | .ok checked =>
    if req.aliasName ≠ [] then createNamed u svc settings ctx checked req.aliasName (draws 0) s
    else
      match reuseLink loc settings ctx req.destinationURL now s with
      | .error e => (.error e, s)
      | .ok (some existing) => (.ok ⟨existing, false⟩, s)
      | .ok none =>
        match checkQuota settings ctx s with
        | .error e => (.error e, s)
        | .ok () => createAttempts u svc settings checked ctx.actorID (List.ofFn draws) s

/-! ## Update -/

def parseStatus (raw : GoString) : Option LinkStatus :=
  if raw = lit "active" then some .active
  else if raw = lit "disabled" then some .disabled
  else none

/-- The destination of `Update`; an empty string leaves it. -/
def updateDestination (svc : LinkService) (settings : RuntimeSettingsInput)
    (req : UpdateLinkRequest) (link : Link) : Except ServiceError Link :=
  if req.destinationURL = [] then .ok link
  else
    match checkDestination u settings.destinationDenylist req.destinationURL with
    | .error e => .error e
    | .ok () =>
      if isSelfDestination u svc settings link req.destinationURL then .error .selfDestination
      else .ok { link with destinationURL := req.destinationURL }

def updateRedirectCode (req : UpdateLinkRequest) (link : Link) : Except ServiceError Link :=
  if req.redirectCode = 0 then .ok link
  else if req.redirectCode ≠ 301 ∧ req.redirectCode ≠ 302 then
    .error (.invalid "redirect_code must be 301 or 302")
  else .ok { link with redirectCode := req.redirectCode }

def updateInterstitial (req : UpdateLinkRequest) (link : Link) : Except ServiceError Link :=
  match req.interstitialSeconds with
  | none => .ok link
  | some requested =>
    match interstitialSeconds (some requested) with
    | .error e => .error e
    | .ok seconds => .ok { link with interstitialSeconds := seconds }

def updateStatus (req : UpdateLinkRequest) (link : Link) : Except ServiceError Link :=
  if req.status = [] then .ok link
  else
    match parseStatus req.status with
    | none => .error (.invalid "invalid status")
    | some status => .ok { link with status := status }

def updateExpiry (req : UpdateLinkRequest) (link : Link) : Except ServiceError Link :=
  match req.expiresAt with
  | none => .ok link
  | some raw =>
    match parseExpiry raw with
    | .error e => .error e
    | .ok expiresAt => .ok { link with expiresAt := expiresAt }

def updateTitle (req : UpdateLinkRequest) (link : Link) : Except ServiceError Link :=
  match req.title with
  | none => .ok link
  | some raw =>
    match NormalizeTitle raw with
    | .error e => .error e
    | .ok title => .ok { link with title := title }

def updateTags (req : UpdateLinkRequest) : Except ServiceError (Option (List GoString)) :=
  match req.tags with
  | none => .ok none
  | some raw =>
    match NormalizeTags u raw with
    | .error e => .error e
    | .ok tags => .ok (some tags)

def updateRules (svc : LinkService) (settings : RuntimeSettingsInput) (req : UpdateLinkRequest)
    (link : Link) : Except ServiceError (Option (List LinkRule)) :=
  match req.rules with
  | none => .ok none
  | some raw =>
    match normalizeRules u raw settings.destinationDenylist with
    | .error e => .error e
    | .ok rules =>
      if rules.any fun rule => isSelfDestination u svc settings link rule.destinationURL then
        .error .selfDestination
      else .ok (some rules)

def updateDomain (settings : RuntimeSettingsInput) (req : UpdateLinkRequest) (link : Link) :
    Except ServiceError Link :=
  match req.domain with
  | none => .ok link
  | some raw =>
    match normalizeDomain u raw settings.shortDomains with
    | .error e => .error e
    | .ok domain => .ok { link with domain := domain }

/-- What `Update` hands to the store: the row's new columns, and the tags and
rules to replace, if any. -/
structure LinkEdit where
  link : Link
  tags : Option (List GoString)
  rules : Option (List LinkRule)
  deriving DecidableEq

/-- The middle of `Update`: the loaded link with the request applied. -/
def planUpdate (svc : LinkService) (settings : RuntimeSettingsInput) (req : UpdateLinkRequest)
    (link : Link) : Except ServiceError LinkEdit := do
  let link ← updateDestination u svc settings req link
  let link ← updateRedirectCode req link
  let link ← updateInterstitial req link
  let link ← updateStatus req link
  let link ← updateExpiry req link
  let link ← updateTitle req link
  let tags ← updateTags u req
  let rules ← updateRules u svc settings req link
  let link ← updateDomain u settings req link
  return { link := link, tags := tags, rules := rules }

/-- `Update`. -/
def Update (svc : LinkService) (settings : RuntimeSettingsInput) (ctx : Context) (id : GoString)
    (req : UpdateLinkRequest) (now : Instant) (s : LinkStore) :
    Except ServiceError Link × LinkStore :=
  match s.GetLink loc id ctx.ownerID with
  | .error e => (.error e, s)
  | .ok link =>
    match planUpdate u svc settings req link with
    | .error e => (.error e, s)
    | .ok edit =>
      match s.UpdateLink edit.link edit.tags edit.rules ctx.ownerID now with
      | (.error e, s) => (.error e, s)
      | (.ok (), s) => (s.GetLink loc id ctx.ownerID, s)

/-! ## Delete and Bulk -/

/-- `Delete`: the alias whose cache entry is to be dropped. -/
def Delete (ctx : Context) (id : GoString) (now : Instant) (s : LinkStore) :
    Except ServiceError GoString × LinkStore :=
  match s.GetLink loc id ctx.ownerID with
  | .error e => (.error e, s)
  | .ok link =>
    match s.DeleteLink id ctx.ownerID now with
    | (.error e, s) => (.error e, s)
    | (.ok (), s) => (.ok link.aliasName, s)

/-- `uuid.Parse` succeeds.  The bytes around a braced identifier are not read. -/
def parsesAsUUID (s : GoString) : Bool :=
  if s.length = 32 then s.all isHex
  else if s.length = 36 then hyphenated s
  else if s.length = 45 then equalFold u (s.take 9) (lit "urn:uuid:") && hyphenated (s.drop 9)
  else if s.length = 38 then hyphenated ((s.drop 1).take 36)
  else false
where
  /-- Hyphens after the digits 8, 12, 16 and 20 and hexadecimal digits elsewhere. -/
  hyphenated (s : GoString) : Bool :=
    (s.zipIdx).all fun (c, i) =>
      if i = 8 ∨ i = 13 ∨ i = 18 ∨ i = 23 then c == 0x2D else isHex c

/-- The loop of `normalizeIDs`; `ids` holds the identifiers kept so far. -/
def normalizeIDsFrom (ids : List GoString) : List GoString → Except ServiceError (List GoString)
  | [] => .ok ids
  | candidate :: raw =>
    let trimmed := trimSpace candidate
    if trimmed = [] then normalizeIDsFrom ids raw
    else if trimmed ∈ ids then normalizeIDsFrom ids raw
    else if !parsesAsUUID u trimmed then .error (.invalid "ids must be uuids")
    else normalizeIDsFrom (ids ++ [trimmed]) raw

theorem normalizeIDsFrom_cons (ids : List GoString) (candidate : GoString) (raw : List GoString) :
    normalizeIDsFrom u ids (candidate :: raw) =
      if trimSpace candidate = [] then normalizeIDsFrom u ids raw
      else if trimSpace candidate ∈ ids then normalizeIDsFrom u ids raw
      else if !parsesAsUUID u (trimSpace candidate) then .error (.invalid "ids must be uuids")
      else normalizeIDsFrom u (ids ++ [trimSpace candidate]) raw := rfl

/-- `normalizeIDs`. -/
def normalizeIDs (raw : List GoString) : Except ServiceError (List GoString) :=
  if raw = [] then .error (.invalid "ids is required")
  else if raw.length > maxBulkIDs then .error (.invalid "at most 500 ids per request")
  else
    match normalizeIDsFrom u [] raw with
    | .error e => .error e
    | .ok [] => .error (.invalid "ids is required")
    | .ok ids => .ok ids

/-- The bulk actions. -/
inductive BulkAction where
  | delete
  | disable
  | enable
  | tag
  | untag
  | setExpiry
  deriving DecidableEq

def parseBulkAction (raw : GoString) : Option BulkAction :=
  if raw = lit "delete" then some .delete
  else if raw = lit "disable" then some .disable
  else if raw = lit "enable" then some .enable
  else if raw = lit "tag" then some .tag
  else if raw = lit "untag" then some .untag
  else if raw = lit "set_expiry" then some .setExpiry
  else none

/-- The statement a bulk request asks for, once everything in it is checked. -/
inductive BulkEdit where
  | delete
  | setStatus (status : LinkStatus)
  | setExpiry (expiresAt : Option Instant)
  | tag (tags : List GoString) (add : Bool)
  deriving DecidableEq

/-- The checks of `Bulk`, made by the action before its statement. -/
def planBulk (req : BulkLinkRequest) : Except ServiceError BulkEdit :=
  match parseBulkAction req.action with
  | none => .error (.invalid "unknown action")
  | some .delete => .ok .delete
  | some .disable => .ok (.setStatus .disabled)
  | some .enable => .ok (.setStatus .active)
  | some .setExpiry =>
    match req.expiresAt with
    | none => .error (.invalid "expires_at is required")
    | some raw =>
      match parseExpiry raw with
      | .error e => .error e
      | .ok expiresAt => .ok (.setExpiry expiresAt)
  | some .tag => planTags true
  | some .untag => planTags false
where
  planTags (add : Bool) : Except ServiceError BulkEdit :=
    match NormalizeTags u req.tags with
    | .error e => .error e
    | .ok [] => .error (.invalid "at least one tag is required")
    | .ok tags => .ok (.tag tags add)

/-- The statement of a bulk edit: the number it reports, and the aliases whose
cache entries are to be dropped. -/
def BulkEdit.apply (edit : BulkEdit) (ids : List GoString) (owner : Option Uuid) (now : Instant)
    (s : LinkStore) : Except ServiceError (Nat × List GoString) × LinkStore :=
  match edit with
  | .delete => counted (s.BulkDeleteLinks ids owner now)
  | .setStatus status => counted (s.BulkSetStatus ids owner status now)
  | .setExpiry expiresAt => counted (s.BulkSetExpiry ids owner expiresAt now)
  | .tag tags add =>
    match s.BulkTagLinks ids owner tags add with
    | (.error e, s) => (.error e, s)
    | (.ok touched, s) => (.ok (touched, []), s)
where
  counted : Except ServiceError (List GoString) × LinkStore →
      Except ServiceError (Nat × List GoString) × LinkStore
    | (.error e, s) => (.error e, s)
    | (.ok aliases, s) => (.ok (aliases.length, aliases), s)

/-- `Bulk`. -/
def Bulk (ctx : Context) (req : BulkLinkRequest) (now : Instant) (s : LinkStore) :
    Except ServiceError (Nat × List GoString) × LinkStore :=
  match normalizeIDs u req.ids with
  | .error e => (.error e, s)
  | .ok ids =>
    match planBulk u req with
    | .error e => (.error e, s)
    | .ok edit => edit.apply ids ctx.ownerID now s

/-! ## Short URLs -/

/-- `ShortURL`: the link's domain, when it has one, takes the place of the whole
authority of the public URL. -/
def ShortURL (svc : LinkService) (link : Link) : GoString :=
  let base := trimRightByte 0x2F svc.publicURL
  let shown :=
    if link.domain = [] then base
    else
      match Url.parse u base with
      | some parsed =>
        if parsed.host = [] then base
        else trimRightByte 0x2F { parsed with host := link.domain }.toText
      | none => base
  shown ++ 0x2F :: pathEscape link.aliasName

end

end Purels.Service
