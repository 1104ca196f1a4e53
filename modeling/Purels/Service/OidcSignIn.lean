import Purels.Lib.Processes
import Purels.Lib.Tables
import Purels.Security.Links
import Purels.Security.SecondFactor
import Purels.Store.Oidc

/-!
# Sign-ins through an identity provider

`OIDCService.Start` and `OIDCService.Callback` as processes over the tables, statement by
statement, as far as the call of `resolveAccount`.  What the identity provider and the
network answer comes with the label of each step and may be anything.

* `OIDCConfig`: what a deployment fixes.
* `OIDCWorld`: the tables, the cache of discovery documents, and the calls of
  `resolveAccount` so far.  No step reads the latter.
* `OIDCCall`: how far a call has come.
* `oidcStep` and `oidcCalls`: the steps.
-/

namespace Purels.Service

open Go Security Store Lib

/-! ## Configuration -/

/-- `oauth2.Config`, with the two addresses of the endpoint. -/
structure OAuthConfig where
  clientID : GoString
  clientSecret : GoString
  authURL : GoString
  tokenURL : GoString
  redirectURL : GoString
  scopes : List GoString

/-- The key material and the settings of a deployment. -/
structure OIDCConfig where
  crypto : Crypto
  box : SecretBox
  /-- `SecretsAvailable`: a key is configured. -/
  secretsAvailable : Bool
  redirectBase : GoString
  requestTTL : Int
  /-- `AuthCodeURL` of the client, with state, nonce and PKCE verifier. -/
  authCodeURL : OAuthConfig → (state nonce verifier : GoString) → GoString

/-- `oidcStateLength`. -/
abbrev oidcStateLength : Nat := 48

/-- `oidcNonceLength`. -/
abbrev oidcNonceLength : Nat := 48

/-! ## What the identity provider answers -/

/-- The endpoint that a discovery document names. -/
structure Discovery where
  authURL : GoString
  tokenURL : GoString
  deriving DecidableEq

/-- `cachedProvider`, with the client the verifier expects. -/
structure CachedProvider where
  provider : Discovery
  verifierClientID : GoString
  storedAt : Instant
  deriving DecidableEq

/-- `oidcClaims`. -/
structure OIDCClaims where
  preferredUsername : GoString := []
  email : GoString := []
  emailVerified : Bool := false
  authorizedParty : GoString := []
  deriving DecidableEq

/-- `oidc.IDToken`; its claims may not decode. -/
structure IDToken where
  subject : GoString
  audience : List GoString
  nonce : GoString
  claims : Except String OIDCClaims

/-- What a step learns from outside, should it ask. -/
structure Answer where
  /-- `oidc.NewProvider`. -/
  discovery : Except String Discovery
  /-- `Exchange`, with the `id_token` of the answer, if it is a string. -/
  token : Except String (Option GoString)
  /-- `Verify`. -/
  idToken : Except String IDToken

/-! ## The shared state -/

/-- The arguments of a callback. -/
structure CallbackParams where
  slug : GoString
  code : GoString
  state : GoString
  cookieState : GoString
  deriving DecidableEq

/-- A call of `resolveAccount` and what led to it: the callback, the request with the row
as it was claimed, the provider, and the verified token. -/
structure Resolution where
  params : CallbackParams
  request : OIDCRequestRow
  claimedAt : Instant
  provider : OIDCProvider
  token : IDToken
  claims : OIDCClaims

structure OIDCWorld where
  store : OIDCStore
  cache : List (Uuid × CachedProvider) := []
  resolutions : List Resolution := []

/-! ## Calls -/

/-- What `Start` draws. -/
structure StartDraw where
  state : Fin oidcStateLength → UInt8
  nonce : Fin oidcNonceLength → UInt8
  verifier : GoString
  sealNonce : List UInt8

/-- `OIDCStart`. -/
structure OIDCStart where
  authURL : GoString
  state : GoString
  maxAge : Int
  deriving DecidableEq

inductive OIDCCallRequest where
  | start (slug : GoString) (draw : StartDraw)
  | callback (params : CallbackParams)

/-- The arguments of `CreateOIDCRequest`, and what `Start` returns after it. -/
structure PendingStart where
  providerID : Uuid
  stateHash : List UInt8
  nonce : GoString
  codeVerifier : List UInt8
  expiresAt : Instant
  start : OIDCStart

/-- A callback that has claimed its request. -/
structure ClaimedCallback where
  params : CallbackParams
  provider : OIDCProvider
  entry : CachedProvider
  request : OIDCRequestRow
  claimedAt : Instant
  verifier : GoString

/-- Its call of `resolveAccount`. -/
def ClaimedCallback.resolution (callback : ClaimedCallback) (token : IDToken) (claims : OIDCClaims) :
    Resolution where
  params := callback.params
  request := callback.request
  claimedAt := callback.claimedAt
  provider := callback.provider
  token := token
  claims := claims

/-- What a call returns, `resolveAccount` left aside. -/
inductive OIDCResult where
  | started (start : OIDCStart)
  | resolving (provider : OIDCProvider) (subject : GoString) (claims : OIDCClaims)
  | failed (e : ServiceError)
  deriving DecidableEq

/-- Where a call stands: the next thing it does. -/
inductive OIDCCall where
  | idle
  /-- `Start` looks the provider up. -/
  | startLookup (slug : GoString) (draw : StartDraw)
  /-- It reads the discovery document and draws. -/
  | startDiscover (provider : OIDCProvider) (draw : StartDraw)
  /-- It sweeps the expired requests. -/
  | startSweep (pending : PendingStart)
  /-- It inserts the request. -/
  | startInsert (pending : PendingStart)
  /-- `Callback` looks the provider up. -/
  | lookup (params : CallbackParams)
  /-- It reads the discovery document. -/
  | discover (params : CallbackParams) (provider : OIDCProvider)
  /-- It claims the request. -/
  | claim (params : CallbackParams) (provider : OIDCProvider) (entry : CachedProvider)
  /-- It reads the client secret. -/
  | secret (callback : ClaimedCallback)
  /-- It exchanges the code. -/
  | exchange (callback : ClaimedCallback) (secret : GoString)
  /-- It verifies the ID token. -/
  | verify (callback : ClaimedCallback) (rawIDToken : GoString)
  | done (result : OIDCResult)

/-- A label: a process starts a call, takes its next step at a time of the clock with what
it learns from outside, or gives up, whatever the cause. -/
inductive OIDCAction where
  | start (request : OIDCCallRequest)
  | next (now : Instant) (answer : Answer)
  | fail

/-- No call is in progress. -/
def OIDCCall.free : OIDCCall → Bool
  | .idle | .done _ => true
  | _ => false

/-- The call `return`s an error. -/
def OIDCCall.failed (e : ServiceError) : OIDCCall := .done (.failed e)

section

variable (cfg : OIDCConfig)

/-- The call a request begins as, with the checks that read no table. -/
def OIDCCallRequest.call : OIDCCallRequest → OIDCCall
  | .start slug draw =>
    if cfg.redirectBase = [] then .failed .oidcRedirectBase else .startLookup slug draw
  | .callback params =>
    if params.state = [] ∨ params.cookieState = [] ∨ params.state ≠ params.cookieState then
      .failed .oidcState
    else .lookup params

/-! ## Parts of the calls -/

/-- `RedirectURI`. -/
def RedirectURI (provider : OIDCProvider) : GoString :=
  cfg.redirectBase ++ lit "/api/v1/auth/oidc/" ++ provider.slug ++ lit "/callback"

/-- `oauthConfig`. -/
def oauthConfig (provider : OIDCProvider) (entry : CachedProvider) (secret : GoString) :
    OAuthConfig where
  clientID := provider.clientID
  clientSecret := secret
  authURL := entry.provider.authURL
  tokenURL := entry.provider.tokenURL
  redirectURL := RedirectURI cfg provider
  scopes := provider.scopes

/-- `discover`: the cached document when it is not older than the row, or a new one. -/
def discover (provider : OIDCProvider) (answer : Answer) (w : OIDCWorld) :
    Except ServiceError CachedProvider × OIDCWorld :=
  let fetched :=
    match answer.discovery with
    | .error _ => (.error .oidcDiscovery, w)
    | .ok discovered =>
      let entry : CachedProvider := ⟨discovered, provider.clientID, provider.updatedAt⟩
      (.ok entry, { w with cache := put Prod.fst w.cache (provider.id, entry) })
  match lookup Prod.fst w.cache provider.id with
  | none => fetched
  | some (_, entry) => if provider.updatedAt ≤ entry.storedAt then (.ok entry, w) else fetched

/-- `Start` after the discovery, up to its first statement. -/
def pendingStart (provider : OIDCProvider) (entry : CachedProvider) (draw : StartDraw)
    (now : Instant) : Except ServiceError PendingStart :=
  let state := randomString (List.ofFn draw.state)
  let nonce := randomString (List.ofFn draw.nonce)
  if !cfg.secretsAvailable then .error .secretsUnavailable
  else
    match cfg.box.Seal cfg.crypto draw.sealNonce draw.verifier with
    | none => .error .secretsUnavailable
    | some sealed => .ok
      { providerID := provider.id
        stateHash := cfg.crypto.sha256 state
        nonce
        codeVerifier := sealed
        expiresAt := now + cfg.requestTTL
        start :=
          { authURL := cfg.authCodeURL (oauthConfig cfg provider entry []) state nonce draw.verifier
            state
            maxAge := cfg.requestTTL.tdiv second } }

/-- `Callback` between the claim and the next statement or message. -/
def claimedCallback (params : CallbackParams) (provider : OIDCProvider) (entry : CachedProvider)
    (request : OIDCRequestRow) (claimedAt : Instant) : OIDCCall :=
  if request.providerID ≠ provider.id then .failed .oidcState
  else
    match cfg.box.Open cfg.crypto request.codeVerifier with
    | none => .failed (.oidcExchange "the PKCE verifier cannot be decrypted")
    | some verifier =>
      let callback : ClaimedCallback := ⟨params, provider, entry, request, claimedAt, verifier⟩
      if provider.hasSecret then .secret callback else .exchange callback []

/-- What `Callback` checks of a verified token. -/
def tokenChecked (provider : OIDCProvider) (request : OIDCRequestRow) (token : IDToken) :
    Except ServiceError OIDCClaims :=
  if token.nonce ≠ request.nonce then .error (.oidcExchange "the nonce does not match")
  else if token.subject = [] then .error (.oidcExchange "the id_token has no subject")
  else
    match token.claims with
    | .error e => .error (.oidcExchange e)
    | .ok claims =>
      if 1 < token.audience.length ∧ claims.authorizedParty ≠ provider.clientID then
        .error (.oidcExchange "the id_token was issued to another client")
      else .ok claims

/-! ## Steps -/

/-- The discovery of `Start`. -/
def startDiscoverStep (provider : OIDCProvider) (draw : StartDraw) (now : Instant)
    (answer : Answer) (w : OIDCWorld) : OIDCWorld × OIDCCall :=
  match discover provider answer w with
  | (.error e, w) => (w, .failed e)
  | (.ok entry, w) =>
    match pendingStart cfg provider entry draw now with
    | .error e => (w, .failed e)
    | .ok pending => (w, .startSweep pending)

/-- The insert of `Start`. -/
def startInsertStep (pending : PendingStart) (w : OIDCWorld) : OIDCWorld × OIDCCall :=
  match w.store.insertRequest pending.providerID pending.stateHash pending.nonce
    pending.codeVerifier pending.expiresAt with
  | (.error e, store) => ({ w with store }, .failed e)
  | (.ok (), store) => ({ w with store }, .done (.started pending.start))

/-- The discovery of `Callback`. -/
def discoverStep (params : CallbackParams) (provider : OIDCProvider) (answer : Answer)
    (w : OIDCWorld) : OIDCWorld × OIDCCall :=
  match discover provider answer w with
  | (.error e, w) => (w, .failed e)
  | (.ok entry, w) => (w, .claim params provider entry)

/-- The claim of `Callback`. -/
def claimRequestStep (params : CallbackParams) (provider : OIDCProvider) (entry : CachedProvider)
    (now : Instant) (w : OIDCWorld) : OIDCWorld × OIDCCall :=
  match w.store.ClaimOIDCRequest (cfg.crypto.sha256 params.state) now with
  | (none, store) => ({ w with store }, .failed .oidcState)
  | (some request, store) =>
    ({ w with store }, claimedCallback cfg params provider entry request now)

/-- `clientSecret`, of a provider that has one. -/
def secretStep (callback : ClaimedCallback) (w : OIDCWorld) : OIDCCall :=
  match w.store.GetOIDCProviderSecret callback.provider.id with
  | .error e => .failed e
  | .ok sealed =>
    match cfg.box.Open cfg.crypto sealed with
    | none =>
      .failed (.oidcExchange "the stored client secret cannot be decrypted; re-enter it")
    | some secret => .exchange callback secret

/-- The token exchange of `Callback`. -/
def exchangeStep (callback : ClaimedCallback) (answer : Answer) : OIDCCall :=
  match answer.token with
  | .error e => .failed (.oidcExchange e)
  | .ok none => .failed (.oidcExchange "no id_token was returned")
  | .ok (some rawIDToken) =>
    if rawIDToken = [] then .failed (.oidcExchange "no id_token was returned")
    else .verify callback rawIDToken

/-- The end of `Callback`: the token is verified and `resolveAccount` called. -/
def verifyStep (callback : ClaimedCallback) (answer : Answer) (w : OIDCWorld) :
    OIDCWorld × OIDCCall :=
  match answer.idToken with
  | .error e => (w, .failed (.oidcExchange e))
  | .ok token =>
    match tokenChecked callback.provider callback.request token with
    | .error e => (w, .failed e)
    | .ok claims =>
      ({ w with resolutions := w.resolutions ++ [callback.resolution token claims] },
        .done (.resolving callback.provider token.subject claims))

/-- The next step of a call. -/
def oidcStep (now : Instant) (answer : Answer) (w : OIDCWorld) :
    OIDCCall → Option (OIDCWorld × OIDCCall)
  | .idle | .done _ => none
  | .startLookup slug draw =>
    some (w, match w.store.GetOIDCProviderBySlug slug with
      | .error e => .failed e
      | .ok provider => .startDiscover provider draw)
  | .startDiscover provider draw => some (startDiscoverStep cfg provider draw now answer w)
  | .startSweep pending =>
    some ({ w with store := w.store.sweepRequests now }, .startInsert pending)
  | .startInsert pending => some (startInsertStep pending w)
  | .lookup params =>
    some (w, match w.store.GetOIDCProviderBySlug params.slug with
      | .error e => .failed e
      | .ok provider => .discover params provider)
  | .discover params provider => some (discoverStep params provider answer w)
  | .claim params provider entry => some (claimRequestStep cfg params provider entry now w)
  | .secret callback => some (w, secretStep cfg callback w)
  | .exchange callback _ => some (w, exchangeStep callback answer)
  | .verify callback _ => some (verifyStep callback answer w)

/-- The calls as processes. -/
def oidcCalls : Process OIDCWorld OIDCCall OIDCAction where
  step w call
    | .start request => if call.free then some (w, request.call cfg) else none
    | .next now answer => oidcStep cfg now answer w call
    | .fail => if call.free then none else some (w, .failed .database)

end

end Purels.Service
