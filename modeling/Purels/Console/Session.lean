import Purels.Http.Tokens
import Purels.Service.Auth

/-!
# The console in a browser

The tabs of a browser share its cookies, and each document has the variable `csrfToken` of
`api-client.ts` for itself.  The calls of all tabs, and the requests of other clients, are
processes over the tables, the cookies and the tabs.

* `Jar`, `Tab` and `Browser`: what the processes share.
* `ConsoleCall`: how far a call of `request`, of `auth.login` or of another client has come.
* `dispatch`, `request`, `arrive`: the parts of `request`.
* `console`: the steps.
-/

namespace Purels.Console

open Go Security Store Service Http Lib

/-! ## The browser -/

/-- The cookies `purels_session` and `purels_csrf`.  They are set and expire together. -/
structure Jar where
  session : Option GoString := none
  csrf : Option GoString := none
  deriving DecidableEq

structure Tab where
  /-- Counts the documents that the tab has loaded. -/
  page : ℕ := 0
  /-- The variable `csrfToken` of the document. -/
  csrfToken : GoString := []
  /-- The path begins with `/login`. -/
  login : Bool := false
  deriving DecidableEq

/-- A document is loaded: its scripts start afresh. -/
def Tab.reload (tab : Tab) (login : Bool) : Tab := { page := tab.page + 1, login := login }

structure Browser where
  store : CredentialStore := {}
  jar : Jar := {}
  tabs : ℕ → Tab := fun _ => {}

def Browser.setTab (b : Browser) (k : ℕ) (tab : Tab) : Browser :=
  { b with tabs := Function.update b.tabs k tab }

@[simp] theorem Browser.setTab_store (b : Browser) (k : ℕ) (tab : Tab) :
    (b.setTab k tab).store = b.store := rfl

@[simp] theorem Browser.setTab_jar (b : Browser) (k : ℕ) (tab : Tab) :
    (b.setTab k tab).jar = b.jar := rfl

@[simp] theorem Browser.setTab_self (b : Browser) (k : ℕ) (tab : Tab) :
    (b.setTab k tab).tabs k = tab := Function.update_self ..

theorem Browser.setTab_other (b : Browser) {k j : ℕ} (tab : Tab) (h : j ≠ k) :
    (b.setTab k tab).tabs j = b.tabs j := Function.update_of_ne h ..

/-! ## Calls -/

/-- Where a call stands.  A call of the console belongs to a document of a tab. -/
inductive ConsoleCall where
  | idle
  /-- A request of another client. -/
  | other (call : TokenCall)
  /-- `request` waits for `/auth/csrf`, which was sent with this cookie. -/
  | fetching (tab page : ℕ) (cookie : Option GoString) (request : AdminRequest)
  /-- `request` waits for its answer. -/
  | sent (tab page : ℕ) (credentials : Credentials) (request : AdminRequest) (call : TokenCall)
  /-- A sign-in is under way, by a call of the document or by a navigation. -/
  | signingIn (tab page : ℕ) (navigates : Bool)
  /-- The server has made a session, and its answer is under way. -/
  | granted (tab page : ℕ) (navigates : Bool) (client : SignIn)
  /-- The cookies of the answer are set, its body is still to be read. -/
  | settled (tab page : ℕ) (csrfToken : GoString)
  | done

/-- `Handler.CSRF`: the cookie, unless there is none. -/
def handlerCSRF : Option GoString → Option GoString
  | none | some [] => none
  | some token => some token

/-- The end of `request`: the header is set and the request is sent, with the cookies. -/
def dispatch (b : Browser) (tab : ℕ) (request : AdminRequest) : ConsoleCall :=
  let credentials : Credentials :=
    { session := b.jar.session, csrf := b.jar.csrf, csrfToken := (b.tabs tab).csrfToken }
  .sent tab (b.tabs tab).page credentials request (.arrived credentials request)

/-- The beginning of `request`: without a token it asks for one. -/
def request (b : Browser) (tab : ℕ) (request : AdminRequest) : ConsoleCall :=
  if (b.tabs tab).csrfToken = [] then .fetching tab (b.tabs tab).page b.jar.csrf request
  else dispatch b tab request

/-- The answer of `/auth/csrf` is stored.  A document that is gone stores nothing. -/
def storeToken (b : Browser) (tab page : ℕ) (token : GoString) : Browser :=
  if page = (b.tabs tab).page then b.setTab tab { b.tabs tab with csrfToken := token } else b

/-- `request` has its answer.  A logout has the cookies expire, and without a session the document
goes to `/login`, unless it is there. -/
def arrive (b : Browser) (tab page : ℕ) (request : AdminRequest) : TokenCall → Browser
  | .done .unauthorized =>
    if page = (b.tabs tab).page ∧ (b.tabs tab).login = false then
      b.setTab tab ((b.tabs tab).reload true)
    else b
  | .done .noContent => if request = .logout then { b with jar := {} } else b
  | _ => b

inductive ConsoleAction where
  /-- A tab loads a document, or its router changes the path. -/
  | load (tab : ℕ) (login : Bool)
  | navigate (tab : ℕ) (login : Bool)
  /-- The cookies expire. -/
  | expire
  /-- A call of `request` for a request that writes. -/
  | request (tab : ℕ) (request : AdminRequest)
  | fetched
  | fetchFailed
  /-- The server authenticates the request, serves it, or gives up. -/
  | server (action : TokenAction)
  | arrive
  /-- `login`, `register` or `verify`, or the way to an identity provider and back. -/
  | signIn (tab : ℕ) (navigates : Bool)
  | grant (user : LoginUser) (client : SignIn) (now : Instant)
  /-- A second factor is due. -/
  | challenge
  | refuse
  /-- The cookies of the answer are set. -/
  | cookies
  /-- The body of the answer is read. -/
  | resolve
  /-- The network loses a call. -/
  | drop
  /-- Another client does something. -/
  | other (action : TokenAction)

/-- What the server does with a request that has arrived. -/
def serverSide : TokenAction → Bool
  | .authenticate _ | .serve .. | .abort => true
  | _ => false

/-- The browser and the other clients as processes.  The document of a navigation is gone when it
begins. -/
def console (cfg : AuthConfig) : Process Browser ConsoleCall ConsoleAction where
  step b call
    | .load tab login => some (b.setTab tab ((b.tabs tab).reload login), call)
    | .navigate tab login => some (b.setTab tab { b.tabs tab with login }, call)
    | .expire => some ({ b with jar := {} }, call)
    | .request tab req =>
      match call with
      | .idle => some (b, request b tab req)
      | _ => none
    | .fetched =>
      match call with
      | .fetching tab page cookie req =>
        if page ≠ (b.tabs tab).page then some (b, .done)
        else
          let b := match handlerCSRF cookie with
            | some token => storeToken b tab page token
            | none => b
          some (b, dispatch b tab req)
      | _ => none
    | .fetchFailed =>
      match call with
      | .fetching tab page _ req =>
        some (b, if page ≠ (b.tabs tab).page then .done else dispatch b tab req)
      | _ => none
    | .server action =>
      match call with
      | .sent tab page credentials req inner =>
        if serverSide action then
          ((tokenCalls cfg.u cfg.crypto).step b.store inner action).map fun r =>
            ({ b with store := r.1 }, .sent tab page credentials req r.2)
        else none
      | _ => none
    | .arrive =>
      match call with
      | .sent tab page _ req (.done response) =>
        some (arrive b tab page req (.done response), .done)
      | _ => none
    | .signIn tab navigates =>
      match call with
      | .idle =>
        let b := if navigates then b.setTab tab ((b.tabs tab).reload false) else b
        some (b, .signingIn tab (b.tabs tab).page navigates)
      | _ => none
    | .grant user client now =>
      match call with
      | .signingIn tab page navigates =>
        -- `RandomString` gives no empty text.
        if client.csrfToken = [] then none
        else
          match AuthService.createSession cfg user client now b.store.toMfaStore with
          | (.error _, _) => some (b, .done)
          | (.ok _, s) =>
            some ({ b with store := { b.store with sessions := s.sessions } },
              .granted tab page navigates client)
      | _ => none
    | .challenge =>
      match call with
      | .signingIn tab page false => some (b, .settled tab page [])
      | .signingIn tab _ true => some (b.setTab tab ((b.tabs tab).reload true), .done)
      | _ => none
    | .refuse =>
      match call with
      | .signingIn _ _ false => some (b, .done)
      | .signingIn tab _ true => some (b.setTab tab ((b.tabs tab).reload true), .done)
      | _ => none
    | .cookies =>
      match call with
      | .granted tab page navigates client =>
        let b := { b with jar := ⟨some client.sessionToken, some client.csrfToken⟩ }
        if navigates then some (b.setTab tab ((b.tabs tab).reload false), .done)
        else some (b, .settled tab page client.csrfToken)
      | _ => none
    | .resolve =>
      match call with
      | .settled tab page token => some (storeToken b tab page token, .done)
      | _ => none
    | .drop =>
      match call with
      | .idle | .other _ | .done => none
      | _ => some (b, .done)
    | .other action =>
      match call with
      | .other inner =>
        ((tokenCalls cfg.u cfg.crypto).step b.store inner action).map fun r =>
          ({ b with store := r.1 }, .other r.2)
      | .idle =>
        ((tokenCalls cfg.u cfg.crypto).step b.store .idle action).map fun r =>
          ({ b with store := r.1 }, .other r.2)
      | _ => none

end Purels.Console
