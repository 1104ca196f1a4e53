import Purels.Lib.Processes
import Purels.Service.Tokens

/-!
# Requests that administer credentials

The middleware that authenticates a request, and the routes that edit roles, accounts and
tokens, as processes over the tables.

* `Credentials` and `Require`: who a request comes from.
* `AdminRequest`, `RequireScope`, `CSRF` and `handleAdmin`: the routes.
* `TokenCall` and `tokenCalls`: a request is authenticated in one step and served in a
  later one, so that edits come between the two.
-/

namespace Purels.Http

open Go Security Store Service Lib

/-! ## Authentication -/

/-- What the middleware reads of a request. -/
structure Credentials where
  /-- The `Authorization` header, empty when there is none. -/
  authorization : GoString := []
  /-- The cookie `purels_session`. -/
  session : Option GoString := none
  /-- The cookie `purels_csrf`. -/
  csrf : Option GoString := none
  /-- The header `X-CSRF-Token`, empty when there is none. -/
  csrfToken : GoString := []
  deriving DecidableEq

section

variable (u : Unicode) (crypto : Crypto)

/-- The token of a `Bearer` authorization. -/
def bearer (authorization : GoString) : Option GoString :=
  if 7 < authorization.length ∧ equalFold u (authorization.take 7) (lit "Bearer ") then
    some (trimSpace (authorization.drop 7))
  else none

/-- The account of the session cookie. -/
def requireSession (s : CredentialStore) (credentials : Credentials) (now : Instant) :
    Option Caller :=
  match credentials.session with
  | none => none
  | some cookie =>
    match s.GetSession (crypto.sha256 cookie) now with
    | none => none
    | some (session, user) => some { user := some user, scopes := user.scopes, session := session }

/-- `Auth.Require`: a token that does not authenticate leaves the request to its cookie. -/
def Require (s : CredentialStore) (credentials : Credentials) (now : Instant) : Option Caller :=
  match bearer u credentials.authorization with
  | none => requireSession crypto s credentials now
  | some token =>
    match s.AuthenticateToken (crypto.sha256 token) with
    | some user => some { user := some user, scopes := user.scopes }
    | none => requireSession crypto s credentials now

end

/-! ## Routes -/

/-- A request for one of the routes, with its path and its body. -/
inductive AdminRequest where
  | updateUser (id : GoString) (req : UpdateUserRequest)
  | updateRole (name : GoString) (req : UpdateRoleRequest)
  | createToken (name : GoString)
  | revokeToken (id : GoString)
  | logout
  deriving DecidableEq

/-- The capability that the route asks for. -/
def AdminRequest.scope : AdminRequest → Option Scope
  | .updateUser .. => some .usersManage
  | .updateRole .. => some .rolesManage
  | .createToken _ | .revokeToken _ => some .tokensManage
  | .logout => none

/-- `RequireScope` of the route. -/
def RequireScope (caller : Caller) (request : AdminRequest) : Bool :=
  match request.scope with
  | none => true
  | some scope => caller.hasScope scope

/-- What a request is answered with. -/
inductive AdminResponse where
  | unauthorized
  | csrfRequired
  | csrfInvalid
  | insufficientScope
  | created (token : CreatedToken)
  | noContent
  /-- The rendering of `writeServiceError`. -/
  | serviceError (e : ServiceError)
  | internalError

/-- `Auth.CSRF` on a request that writes: a bearer token needs no such proof. -/
def CSRF (crypto : Crypto) (caller : Caller) (credentials : Credentials) :
    Except AdminResponse Unit :=
  match caller.session, credentials.csrf.getD [] with
  | none, _ => .ok ()
  | some _, [] => .error .csrfRequired
  | some session, cookie =>
    let provided := crypto.sha256 credentials.csrfToken
    if provided = session.csrfHash ∧ provided = crypto.sha256 cookie then .ok ()
    else .error .csrfInvalid

/-- The answer of a handler that returns nothing. -/
def answer : Except ServiceError Unit → AdminResponse
  | .ok () => .noContent
  | .error e => .serviceError e

/-- The handler of the route. -/
def handleAdmin (crypto : Crypto) (s : CredentialStore) (caller : Caller)
    (credentials : Credentials) (draw : TokenDraw) (now : Instant) :
    AdminRequest → AdminResponse × CredentialStore
  | .updateUser id req =>
    let actor := (caller.actorID.map Uuid.toText).getD []
    let r := s.onAccounts (UserService.Update s.toAccountStore actor id req)
    (answer r.1, r.2)
  | .updateRole name req =>
    let r := s.onAccounts (RoleService.Update s.toAccountStore name req)
    (answer r.1, r.2)
  | .createToken name =>
    match caller.actorID with
    | none => (.serviceError .notFound, s)
    | some userID =>
      match TokenService.Create crypto s caller userID name draw with
      | (.ok created, s) => (.created created, s)
      | (.error e, s) => (.serviceError e, s)
  | .revokeToken id =>
    match caller.actorID with
    | none => (.serviceError .database, s)
    | some userID =>
      let r := TokenService.Revoke s userID id now
      (answer r.1, r.2)
  | .logout =>
    match credentials.session with
    | none => (.noContent, s)
    | some cookie => (.noContent, s.RevokeSession (crypto.sha256 cookie))

/-! ## Processes -/

/-- Where a request stands. -/
inductive TokenCall where
  | idle
  /-- Is to be authenticated. -/
  | arrived (credentials : Credentials) (request : AdminRequest)
  /-- Is past the middleware, with the context that was resolved there. -/
  | admitted (caller : Caller) (credentials : Credentials) (request : AdminRequest)
  | done (response : AdminResponse)

/-- A label: a request arrives, is authenticated, is served, or is aborted; an account
registers, or signs in. -/
inductive TokenAction where
  | start (credentials : Credentials) (request : AdminRequest)
  | authenticate (now : Instant)
  | serve (draw : TokenDraw) (now : Instant)
  | abort
  | register (user : UserRow)
  | signIn (session : SessionRow)

/-- No request is in progress. -/
def TokenCall.free : TokenCall → Bool
  | .idle | .done _ => true
  | _ => false

/-- The request is past the middleware. -/
def TokenCall.past : TokenCall → Bool
  | .admitted .. => true
  | _ => false

/-- The middleware of the routes, in its order. -/
def admitCall (u : Unicode) (crypto : Crypto) (s : CredentialStore) (credentials : Credentials)
    (request : AdminRequest) (now : Instant) : TokenCall :=
  match Require u crypto s credentials now with
  | none => .done .unauthorized
  | some caller =>
    match CSRF crypto caller credentials with
    | .error response => .done response
    | .ok () =>
      if !RequireScope caller request then .done .insufficientScope
      else .admitted caller credentials request

/-- The requests as processes. -/
def tokenCalls (u : Unicode) (crypto : Crypto) : Process CredentialStore TokenCall TokenAction where
  step s call
    | .start credentials request =>
      if call.free then some (s, .arrived credentials request) else none
    | .authenticate now =>
      match call with
      | .arrived credentials request => some (s, admitCall u crypto s credentials request now)
      | _ => none
    | .serve draw now =>
      match call with
      | .admitted caller credentials request =>
        let r := handleAdmin crypto s caller credentials draw now request
        some (r.2, .done r.1)
      | _ => none
    | .abort => if call.free then none else some (s, .done .internalError)
    | .register user =>
      match s.toAccountStore.CreateUser user with
      | .error _ => some (s, call)
      | .ok accounts => some ({ s with users := accounts.users, roles := accounts.roles }, call)
    | .signIn session =>
      some ({ s with sessions := (s.toMfaStore.CreateSession session).2.sessions }, call)

end Purels.Http
