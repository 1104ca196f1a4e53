import Purels.Go.Json
import Purels.Store.Mfa

/-!
# Identity providers

The tables `oidc_providers`, `oidc_identities` and `oidc_auth_requests`, and the
statements of the sign-in through them.

* `OIDCProviderRow`, `OIDCIdentityRow`, `OIDCRequestRow`, `OIDCStore`: the tables.  The
  identifiers of identities and requests count up.
* `GetOIDCProvider`, `GetOIDCProviderBySlug`, `GetOIDCProviderSecret`: reads of a provider.
* `UpdateOIDCProvider`: its update.
* `sweepRequests`, `insertRequest`, `ClaimOIDCRequest`: authorization requests in flight.
* `FindOIDCIdentity`, `TouchOIDCIdentity`: the account of an external identity.
-/

namespace Purels.Store

open Go

/-! ## Tables -/

/-- A row of `oidc_providers`. -/
structure OIDCProviderRow where
  id : Uuid
  slug : GoString
  displayName : GoString
  issuer : GoString
  clientID : GoString
  clientSecret : Option (List UInt8) := none
  scopes : List GoString := []
  autoProvision : Bool := true
  enabled : Bool := true
  updatedAt : Instant := 0
  deriving DecidableEq

/-- A row of `oidc_identities`. -/
structure OIDCIdentityRow where
  id : Nat
  providerID : Uuid
  userID : Uuid
  subject : GoString
  email : Option GoString := none
  lastLoginAt : Option Instant := none
  deriving DecidableEq

/-- A row of `oidc_auth_requests`. -/
structure OIDCRequestRow where
  id : Nat
  providerID : Uuid
  stateHash : List UInt8
  nonce : GoString
  codeVerifier : List UInt8
  expiresAt : Instant
  consumedAt : Option Instant := none
  deriving DecidableEq

structure OIDCStore where
  providers : List OIDCProviderRow := []
  identities : List OIDCIdentityRow := []
  requests : List OIDCRequestRow := []
  nextID : Nat := 0
  deriving DecidableEq

/-- `domain.OIDCProvider`: the row as every read returns it, without the secret. -/
structure OIDCProvider where
  id : Uuid
  slug : GoString
  displayName : GoString
  issuer : GoString
  clientID : GoString
  hasSecret : Bool
  scopes : List GoString
  autoProvision : Bool
  enabled : Bool
  identityCount : Nat
  updatedAt : Instant
  deriving DecidableEq

/-- `nullableText`. -/
def nullableText (value : GoString) : Option GoString := if value = [] then none else some value

namespace OIDCStore

/-! ## Providers -/

/-- `scanOIDCProvider` of the columns of a row. -/
def toProvider (s : OIDCStore) (row : OIDCProviderRow) : OIDCProvider where
  id := row.id
  slug := row.slug
  displayName := row.displayName
  issuer := row.issuer
  clientID := row.clientID
  hasSecret := row.clientSecret.isSome
  scopes := row.scopes
  autoProvision := row.autoProvision
  enabled := row.enabled
  identityCount := s.identities.countP fun identity => identity.providerID == row.id
  updatedAt := row.updatedAt

/-- The provider with this identifier. -/
def providerRow (s : OIDCStore) (id : Uuid) : Option OIDCProviderRow :=
  s.providers.find? (·.id == id)

/-- `GetOIDCProvider` of an identifier that a row has had. -/
def getProvider (s : OIDCStore) (id : Uuid) : Except ServiceError OIDCProvider :=
  match s.providerRow id with
  | none => .error .notFound
  | some row => .ok (s.toProvider row)

/-- `GetOIDCProvider`.  The error of a failed cast is returned as it is. -/
def GetOIDCProvider (s : OIDCStore) (id : GoString) : Except ServiceError OIDCProvider :=
  match LinkStore.uuidParam id with
  | .error _ => .error .database
  | .ok id => s.getProvider id

/-- `GetOIDCProviderBySlug`: an enabled provider. -/
def GetOIDCProviderBySlug (s : OIDCStore) (slug : GoString) : Except ServiceError OIDCProvider :=
  if !storableText slug then .error .database
  else
    match s.providers.find? fun row => row.slug == slug && row.enabled with
    | none => .error .notFound
    | some row => .ok (s.toProvider row)

/-- `GetOIDCProviderSecret`: no secret is the empty one. -/
def GetOIDCProviderSecret (s : OIDCStore) (id : Uuid) : Except ServiceError (List UInt8) :=
  match s.providers.find? (·.id == id) with
  | none => .error .notFound
  | some row => .ok (row.clientSecret.getD [])

/-- The columns that an update writes are within the bounds of the table. -/
def storableProvider (provider : OIDCProvider) : Bool :=
  storableText provider.displayName && decide ((runes provider.displayName).length ≤ 128) &&
    storableText provider.issuer && storableText provider.clientID &&
    provider.scopes.all (fun scope => !scope.contains 0) &&
    ((lit "http://").isPrefixOf provider.issuer || (lit "https://").isPrefixOf provider.issuer)

/-- A row after an update.  The scopes are written as JSON, and without a new secret the old
one stays. -/
def updatedProvider (provider : OIDCProvider) (secret : Option (List UInt8)) (now : Instant)
    (row : OIDCProviderRow) : OIDCProviderRow :=
  { row with
    displayName := provider.displayName
    issuer := provider.issuer
    clientID := provider.clientID
    scopes := provider.scopes.map jsonText
    autoProvision := provider.autoProvision
    enabled := provider.enabled
    updatedAt := now
    clientSecret := if secret.isSome then secret else row.clientSecret }

/-- The update of `UpdateOIDCProvider`. -/
def UpdateOIDCProvider (s : OIDCStore) (provider : OIDCProvider) (secret : Option (List UInt8))
    (now : Instant) : Except ServiceError Unit × OIDCStore :=
  if !storableProvider provider then (.error .database, s)
  else if !s.providers.any (·.id == provider.id) then (.error .notFound, s)
  else
    (.ok (), { s with
      providers := s.providers.map fun row =>
        if row.id == provider.id then updatedProvider provider secret now row else row })

/-- A successful update has written the row of the provider. -/
theorem UpdateOIDCProvider_ok {s s' : OIDCStore} {provider : OIDCProvider}
    {secret : Option (List UInt8)} {now : Instant}
    (h : s.UpdateOIDCProvider provider secret now = (.ok (), s')) :
    ∃ row, s.providerRow provider.id = some row ∧
      s'.providerRow provider.id = some (updatedProvider provider secret now row) := by
  unfold UpdateOIDCProvider at h
  split_ifs at h with hstorable hmissing
  · cases h
  · cases h
  · cases h
    rw [Bool.not_eq_true, Bool.not_eq_false'] at hmissing
    obtain ⟨row, hrow⟩ := Option.isSome_iff_exists.mp
      (List.find?_isSome.mpr (List.any_eq_true.mp hmissing))
    have hid : row.id == provider.id := by simpa using List.find?_some hrow
    have hkeeps : (fun row : OIDCProviderRow => row.id == provider.id) ∘ (fun row =>
        if row.id == provider.id then updatedProvider provider secret now row else row) =
        fun row => row.id == provider.id := by
      funext row
      rw [Function.comp_apply]
      split_ifs
      · rfl
      · rfl
    refine ⟨row, hrow, ?_⟩
    rw [providerRow, List.find?_map, hkeeps, hrow, Option.map_some, if_pos hid]

/-- One that fails has written nothing. -/
theorem UpdateOIDCProvider_error {s s' : OIDCStore} {provider : OIDCProvider}
    {secret : Option (List UInt8)} {now : Instant} {e : ServiceError}
    (h : s.UpdateOIDCProvider provider secret now = (.error e, s')) : s' = s := by
  unfold UpdateOIDCProvider at h
  split_ifs at h
  · exact (Prod.mk.inj h).2.symm
  · exact (Prod.mk.inj h).2.symm
  · cases h

/-! ## Authorization requests -/

/-- The sweep of `CreateOIDCRequest`. -/
def sweepRequests (s : OIDCStore) (now : Instant) : OIDCStore :=
  { s with requests := s.requests.filter fun row => !decide (row.expiresAt < now) }

/-- The insert of `CreateOIDCRequest`. -/
def insertRequest (s : OIDCStore) (providerID : Uuid) (stateHash : List UInt8) (nonce : GoString)
    (codeVerifier : List UInt8) (expiresAt : Instant) : Except ServiceError Unit × OIDCStore :=
  if !storableText nonce then (.error .database, s)
  else if s.requests.any (·.stateHash == stateHash) then (.error .conflict, s)
  else if !s.providers.any (·.id == providerID) then
    (.error (.invalid "referenced record does not exist"), s)
  else
    (.ok (), { s with
      requests := s.requests ++
        [⟨s.nextID, providerID, stateHash, nonce, codeVerifier, toMicroseconds expiresAt, none⟩]
      nextID := s.nextID + 1 })

/-- The request is there, unused and in time. -/
def claimable (stateHash : List UInt8) (now : Instant) (row : OIDCRequestRow) : Bool :=
  row.stateHash == stateHash && row.consumedAt.isNone && decide (now < row.expiresAt)

/-- `ClaimOIDCRequest`, with the row it touched. -/
def ClaimOIDCRequest (s : OIDCStore) (stateHash : List UInt8) (now : Instant) :
    Option OIDCRequestRow × OIDCStore :=
  (s.requests.find? (claimable stateHash now), { s with
    requests := s.requests.map fun row =>
      if claimable stateHash now row then { row with consumedAt := some now } else row })

/-! ## Identities -/

/-- `FindOIDCIdentity`. -/
def FindOIDCIdentity (s : OIDCStore) (providerID : Uuid) (subject : GoString) :
    Except ServiceError OIDCIdentityRow :=
  if !storableText subject then .error .database
  else
    match s.identities.find? fun row => row.providerID == providerID && row.subject == subject with
    | none => .error .notFound
    | some row => .ok row

/-- `TouchOIDCIdentity`. -/
def TouchOIDCIdentity (s : OIDCStore) (id : Nat) (email : GoString) (now : Instant) :
    Except ServiceError Unit × OIDCStore :=
  if !storableText email then (.error .database, s)
  else if !s.identities.any (·.id == id) then (.error .notFound, s)
  else
    (.ok (), { s with
      identities := s.identities.map fun row =>
        if row.id == id then
          { row with lastLoginAt := some now, email := (nullableText email).or row.email }
        else row })

end OIDCStore

end Purels.Store
