import Purels.Domain.Scopes
import Purels.Store.Mfa

/-!
# Credentials

The table `api_tokens` and the revocation of sessions, with the two lookups that resolve a
credential to an account.

* `Caller`: what the context of an authenticated request holds.
* `TokenRow`, `CredentialStore`: the tables.
* `GetSession`, `AuthenticateToken`: a credential and its account, by a join with the role.
* `CreateToken`, `RevokeToken`, `RevokeSession`.
-/

namespace Purels.Store

open Go

/-- The context of an authenticated request, with its session when it came with a cookie. -/
structure Caller extends Context where
  session : Option SessionRow := none
  deriving DecidableEq

/-! ## Tables -/

/-- A row of `api_tokens`.  The last field is no column: it is the context that the row
was inserted under, and no statement reads it. -/
structure TokenRow where
  id : Uuid
  userID : Uuid
  name : GoString
  tokenHash : List UInt8
  tokenPrefix : GoString
  scopes : List Scope
  revokedAt : Option Instant := none
  creator : Caller
  deriving DecidableEq

/-- The hashes of the sessions whose `revoked_at` is set stand beside their table. -/
structure CredentialStore extends MfaStore where
  tokens : List TokenRow := []
  revokedSessions : List (List UInt8) := []
  deriving DecidableEq

namespace CredentialStore

/-- The tables of accounts after a statement on them. -/
def onAccounts (s : CredentialStore) (r : Except ServiceError Unit × AccountStore) :
    Except ServiceError Unit × CredentialStore :=
  (r.1, { s with users := r.2.users, roles := r.2.roles })

/-! ## Lookups -/

/-- The enabled account with this identifier, joined with its role. -/
def account (s : CredentialStore) (userID : Uuid) : Option (UserRow × RoleRow) :=
  match s.users.find? fun user => user.id == userID && !user.disabled with
  | none => none
  | some user =>
    match s.roles.find? fun role => role.name == user.role with
    | none => none
    | some role => some (user, role)

/-- The preset with this name.  The check of the column admits no other. -/
def roleName (name : GoString) : RoleName :=
  if name = lit "admin" then .admin
  else if name = lit "operator" then .operator
  else if name = lit "readonly" then .readonly
  else .user

/-- `GetSession`: the scopes are those of the role as it stands now. -/
def GetSession (s : CredentialStore) (tokenHash : List UInt8) (now : Instant) :
    Option (SessionRow × User) :=
  match s.sessions.find? fun session => session.tokenHash == tokenHash &&
      !s.revokedSessions.contains session.tokenHash && decide (now < session.expiresAt) with
  | none => none
  | some session =>
    match s.account session.userID with
    | none => none
    | some (user, role) => some (session, {
        id := user.id
        username := user.username
        role := roleName user.role
        scopes := role.scopes
        unrestricted := role.unrestricted
        mfaEnabled := user.totpConfirmedAt.isSome })

/-- `AuthenticateToken`: the scopes are those of the token, the visibility is the role's. -/
def AuthenticateToken (s : CredentialStore) (tokenHash : List UInt8) : Option User :=
  match s.tokens.find? fun token => token.tokenHash == tokenHash && token.revokedAt.isNone with
  | none => none
  | some token =>
    match s.account token.userID with
    | none => none
    | some (user, role) => some {
        id := user.id
        username := user.username
        role := roleName user.role
        scopes := token.scopes
        unrestricted := role.unrestricted }

/-! ## Writes -/

/-- `CreateToken`. -/
def CreateToken (s : CredentialStore) (token : TokenRow) :
    Except ServiceError Unit × CredentialStore :=
  if !storableText token.name || 128 < (runes token.name).length ||
      !storableText token.tokenPrefix || 16 < (runes token.tokenPrefix).length then
    (.error .database, s)
  else if s.tokens.any fun other => other.id == token.id || other.tokenHash == token.tokenHash then
    (.error .conflict, s)
  else if (s.userRow token.userID).isNone then
    (.error (.invalid "referenced record does not exist"), s)
  else (.ok (), { s with tokens := s.tokens ++ [token] })

/-- `RevokeToken`.  A malformed identifier is the error of the cast. -/
def RevokeToken (s : CredentialStore) (userID : Uuid) (tokenID : GoString) (now : Instant) :
    Except ServiceError Unit × CredentialStore :=
  match Uuid.parse tokenID with
  | none => (.error .database, s)
  | some id =>
    let touches (token : TokenRow) : Bool :=
      token.id == id && token.userID == userID && token.revokedAt.isNone
    if !s.tokens.any touches then (.error .notFound, s)
    else
      (.ok (), { s with
        tokens := s.tokens.map fun token =>
          if touches token then { token with revokedAt := some now } else token })

/-- `RevokeSession`. -/
def RevokeSession (s : CredentialStore) (tokenHash : List UInt8) : CredentialStore :=
  if s.sessions.any (·.tokenHash == tokenHash) then
    { s with revokedSessions := tokenHash :: s.revokedSessions }
  else s

/-! ## What the writes leave -/

/-- A token that is stored anew or was there before, with its scopes and its creator. -/
theorem CreateToken_cases (s : CredentialStore) (token : TokenRow) :
    (∃ e, s.CreateToken token = (.error e, s)) ∨
      s.CreateToken token = (.ok (), { s with tokens := s.tokens ++ [token] }) := by
  unfold CreateToken
  split_ifs
  · exact .inl ⟨_, rfl⟩
  · exact .inl ⟨_, rfl⟩
  · exact .inl ⟨_, rfl⟩
  · exact .inr rfl

/-- A revocation keeps everything of a token but its time. -/
theorem mem_RevokeToken {s : CredentialStore} {userID : Uuid} {tokenID : GoString} {now : Instant}
    {token : TokenRow} (h : token ∈ (s.RevokeToken userID tokenID now).2.tokens) :
    ∃ before ∈ s.tokens, token.scopes = before.scopes ∧ token.creator = before.creator ∧
      token.userID = before.userID := by
  unfold RevokeToken at h
  split at h
  · exact ⟨token, h, rfl, rfl, rfl⟩
  · dsimp only at h
    split_ifs at h
    · exact ⟨token, h, rfl, rfl, rfl⟩
    · obtain ⟨before, hbefore, rfl⟩ := List.mem_map.mp h
      refine ⟨before, hbefore, ?_⟩
      split_ifs
      · exact ⟨rfl, rfl, rfl⟩
      · exact ⟨rfl, rfl, rfl⟩

theorem RevokeSession_tokens (s : CredentialStore) (tokenHash : List UInt8) :
    (s.RevokeSession tokenHash).tokens = s.tokens := by
  unfold RevokeSession
  split_ifs
  · rfl
  · rfl

theorem account_id {s : CredentialStore} {userID : Uuid} {user : UserRow} {role : RoleRow}
    (h : s.account userID = some (user, role)) : user.id = userID := by
  unfold account at h
  split at h
  · cases h
  · rename_i row hfind
    split at h
    · cases h
    · obtain ⟨rfl, -⟩ := Prod.mk.inj (Option.some.inj h)
      have hfound := List.find?_some hfind
      rw [Bool.and_eq_true, beq_iff_eq] at hfound
      exact hfound.1

/-- What a session gives is the role of its account. -/
theorem GetSession_cases {s : CredentialStore} {tokenHash : List UInt8} {now : Instant}
    {session : SessionRow} {user : User} (h : s.GetSession tokenHash now = some (session, user)) :
    ∃ row role, s.account session.userID = some (row, role) ∧ user.id = row.id ∧
      user.scopes = role.scopes := by
  unfold GetSession at h
  split at h
  · cases h
  · split at h
    · cases h
    · rename_i row role haccount
      obtain ⟨rfl, rfl⟩ := Prod.mk.inj (Option.some.inj h)
      exact ⟨row, role, haccount, rfl, rfl⟩

/-- What a token gives is what it was minted with. -/
theorem AuthenticateToken_cases {s : CredentialStore} {tokenHash : List UInt8} {user : User}
    (h : s.AuthenticateToken tokenHash = some user) :
    ∃ token ∈ s.tokens, user.scopes = token.scopes := by
  unfold AuthenticateToken at h
  split at h
  · cases h
  · rename_i token hfind
    split at h
    · cases h
    · obtain rfl := Option.some.inj h
      exact ⟨token, List.mem_of_find?_eq_some hfind, rfl⟩

end CredentialStore

end Purels.Store
