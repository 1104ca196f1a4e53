import Purels.Security.Links
import Purels.Security.SecondFactor
import Purels.Service.Users
import Purels.Store.Tokens

/-!
# The services of tokens and roles

* `TokenService`: minting and revoking an API token.
* `RoleService`: the permissions of a role.
-/

namespace Purels.Service

open Go Security Store

/-! ## Tokens -/

/-- What minting draws. -/
structure TokenDraw where
  id : Uuid
  secret : Fin 48 → UInt8

/-- `CreatedToken`, with the fields of the token that are filled in. -/
structure CreatedToken where
  id : Uuid
  name : GoString
  tokenPrefix : GoString
  scopes : List Scope
  secret : GoString
  deriving DecidableEq

namespace TokenService

/-- The row that `Create` inserts. -/
def row (crypto : Crypto) (ctx : Caller) (userID : Uuid) (name : GoString) (draw : TokenDraw) :
    TokenRow where
  id := draw.id
  userID := userID
  name := name
  tokenHash := crypto.sha256 (randomString (List.ofFn draw.secret))
  tokenPrefix := (randomString (List.ofFn draw.secret)).take 8
  scopes := defaultTokenScopes
  creator := ctx

/-- `TokenService.Create`.  The scopes of the caller are not looked at. -/
def Create (crypto : Crypto) (s : CredentialStore) (ctx : Caller) (userID : Uuid)
    (name : GoString) (draw : TokenDraw) : Except ServiceError CreatedToken × CredentialStore :=
  if name = [] ∨ 128 < name.length then (.error (.invalid "token name is required"), s)
  else
    match s.CreateToken (row crypto ctx userID name draw) with
    | (.error e, s) => (.error e, s)
    | (.ok (), s) => (.ok {
        id := draw.id
        name := name
        tokenPrefix := (randomString (List.ofFn draw.secret)).take 8
        scopes := defaultTokenScopes
        secret := randomString (List.ofFn draw.secret) }, s)

/-- `TokenService.Revoke`. -/
def Revoke (s : CredentialStore) (userID : Uuid) (id : GoString) (now : Instant) :
    Except ServiceError Unit × CredentialStore :=
  s.RevokeToken userID id now

/-- A token is minted or nothing changes. -/
theorem Create_cases (crypto : Crypto) (s : CredentialStore) (ctx : Caller) (userID : Uuid)
    (name : GoString) (draw : TokenDraw) :
    (Create crypto s ctx userID name draw).2 = s ∨
      (Create crypto s ctx userID name draw).2 =
        { s with tokens := s.tokens ++ [row crypto ctx userID name draw] } := by
  unfold Create
  split_ifs
  · exact .inl rfl
  · rcases s.CreateToken_cases (row crypto ctx userID name draw) with ⟨e, he⟩ | hok
    · rw [he]
      exact .inl rfl
    · rw [hok]
      exact .inr rfl

end TokenService

/-! ## Roles -/

/-- `domain.UpdateRoleRequest`. -/
structure UpdateRoleRequest where
  scopes : List GoString := []
  unrestricted : Bool := false
  deriving DecidableEq

namespace RoleService

/-- `RoleService.Update`. -/
def Update (s : AccountStore) (name : GoString) (req : UpdateRoleRequest) :
    Except ServiceError Unit × AccountStore :=
  match normalizeRoleScopes req.scopes with
  | .error e => (.error e, s)
  | .ok scopes => s.UpdateRoleScopes ⟨name, scopes, req.unrestricted⟩

end RoleService

end Purels.Service
