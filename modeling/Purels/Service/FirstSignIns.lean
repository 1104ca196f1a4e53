import Mathlib.Logic.Relation
import Purels.Service.OidcSignIn
import Purels.Service.OidcUsername
import Purels.Store.OidcAccounts

/-!
# First sign-ins

`resolveAccount` with `provisionAccount`, and registrations beside it, as processes over the
tables, statement by statement.

* `ResolveArgs` and `Registration`: what the calls are about.
* `usernameCandidates`: the names that `uniqueUsername` looks up.
* `AccountCall`: how far a call has come, and the transaction it holds.
* `accountStep` and `accountCalls`: the steps.
* `naming_reaches`: the look-ups of a call choose the name that `uniqueUsername` does.
-/

namespace Purels.Service

open Go Store Lib

/-! ## Calls -/

/-- The arguments of `resolveAccount`. -/
structure ResolveArgs where
  provider : OIDCProvider
  subject : GoString
  claims : OIDCClaims
  deriving DecidableEq

/-- `verifiedEmail`. -/
def ResolveArgs.email (args : ResolveArgs) : GoString :=
  if args.claims.emailVerified then args.claims.email else []

/-- What `Register` inserts, beside the identifier.  `HashPassword` never writes the hash of an
account without a password. -/
structure Registration where
  username : GoString
  passwordHash : GoString
  hashed : passwordHash ≠ oidcPasswordHash

def Registration.row (registration : Registration) (id : Uuid) : UserRow where
  id
  username := registration.username
  passwordHash := registration.passwordHash

inductive AccountRequest where
  | resolve (args : ResolveArgs)
  | register (registration : Registration)

inductive AccountResult where
  | resolved (args : ResolveArgs) (user : UserRow)
  | registered (user : UserRow)
  | failed (e : ServiceError)
  deriving DecidableEq

/-- `oidcProvisionAttempts`. -/
def oidcProvisionAttempts : ℕ := 3

/-- Where a call stands: the next thing it does. -/
inductive AccountCall where
  | idle
  /-- It looks the identity up. -/
  | find (args : ResolveArgs)
  /-- It records the sign-in of an identity that there is. -/
  | touch (args : ResolveArgs) (identity : OIDCIdentityRow)
  /-- It reads the account of that identity. -/
  | load (args : ResolveArgs) (userID : Uuid)
  /-- It looks a name up. -/
  | naming (args : ResolveArgs) (attempt tried : ℕ)
  /-- It begins a transaction and inserts the account. -/
  | insertUser (args : ResolveArgs) (attempt : ℕ) (username : GoString)
  /-- It inserts the identity. -/
  | insertIdentity (args : ResolveArgs) (userID : Uuid)
  /-- It commits. -/
  | commit (args : ResolveArgs) (userID : Uuid)
  /-- It has lost the identity to another and looks that one up. -/
  | reread (args : ResolveArgs)
  /-- It reads the account that it has made, or that the other has. -/
  | reload (args : ResolveArgs) (userID : Uuid)
  /-- It inserts the account of a registration. -/
  | register (registration : Registration)
  | done (result : AccountResult)

namespace AccountCall

/-- The call has not begun, or is over. -/
def free : AccountCall → Bool
  | .idle | .done _ => true
  | _ => false

/-- The call `return`s an error. -/
def failed (e : ServiceError) : AccountCall := .done (.failed e)

/-- The account that the open transaction of a call has inserted. -/
def held : AccountCall → Option Uuid
  | .insertIdentity _ userID | .commit _ userID => some userID
  | _ => none

end AccountCall

/-- The call a request begins as. -/
def AccountRequest.call : AccountRequest → AccountCall
  | .resolve args => .find args
  | .register registration => .register registration

/-- A label: a process starts a call, takes its next step at a time of the database with an
identifier of `NewID`, gives up before the step, or learns nothing of the step it has taken. -/
inductive AccountAction where
  | start (request : AccountRequest)
  | next (now : Instant) (id : Uuid)
  | fail
  | lost (now : Instant) (id : Uuid)

/-! ## Names -/

/-- The names that `uniqueUsername` looks up, in this order. -/
def usernameCandidates (base : GoString) : List GoString :=
  base :: (List.range' 2 (oidcUsernameSuffixes - 1)).map (withUsernameSuffix base)

/-- The name it chooses is the first that is free, or the last. -/
theorem uniqueUsername_eq_find (candidate : GoString) (isTaken : GoString → Bool) :
    uniqueUsername candidate isTaken =
      ((usernameCandidates candidate).find? fun name => !isTaken name).getD
        (withUsernameSuffix candidate oidcUsernameSuffixes) := by
  unfold uniqueUsername usernameCandidates
  rw [List.find?_cons, List.find?_map]
  cases isTaken candidate with
  | false => rfl
  | true =>
    have hcomp : (fun name => !isTaken name) ∘ withUsernameSuffix candidate =
        fun suffix => !isTaken (withUsernameSuffix candidate suffix) := rfl
    rw [if_neg (by simp), hcomp, Bool.not_true]
    cases (List.range' 2 (oidcUsernameSuffixes - 1)).find? fun suffix =>
        !isTaken (withUsernameSuffix candidate suffix) with
    | none => rfl
    | some suffix => rfl

section

variable (u : Unicode) (sha256 : GoString → Fin 32 → UInt8)

/-- The name that the names of an account are derived from. -/
def ResolveArgs.base (args : ResolveArgs) : GoString :=
  deriveUsername u sha256 args.claims.preferredUsername args.email args.subject

/-- One look-up of `uniqueUsername`. -/
def namingStep (args : ResolveArgs) (attempt tried : ℕ) (t : AccountTables) : AccountCall :=
  let candidates := usernameCandidates (args.base u sha256)
  let candidate := candidates.getD tried (args.base u sha256)
  if !t.accounts.taken candidate then .insertUser args attempt candidate
  else if tried + 1 < candidates.length then .naming args attempt (tried + 1)
  else .insertUser args attempt (withUsernameSuffix (args.base u sha256) oidcUsernameSuffixes)

/-! ## Steps -/

/-- The look-up of `resolveAccount`. -/
def findIdentityStep (args : ResolveArgs) (t : AccountTables) : AccountCall :=
  match t.oidc.FindOIDCIdentity args.provider.id args.subject with
  | .ok identity => .touch args identity
  | .error .notFound =>
    if args.provider.autoProvision then .naming args 0 0 else .failed .oidcNotProvisioned
  | .error e => .failed e

/-- The read of an account that is bound; the error is not passed on. -/
def loadAccountStep (args : ResolveArgs) (userID : Uuid) (t : AccountTables) : AccountCall :=
  match t.accounts.GetUserByID userID with
  | .ok user => .done (.resolved args user)
  | .error _ => .failed .oidcNotProvisioned

/-- The first insert, of an account that no password opens. -/
def insertUserStep (args : ResolveArgs) (attempt : ℕ) (username : GoString) (id : Uuid)
    (t : AccountTables) : Option (AccountTables × AccountCall) :=
  match t.insertUser { id, username, passwordHash := oidcPasswordHash } with
  | none => none
  | some (.ok t') => some (t', .insertIdentity args id)
  | some (.error .conflict) =>
    some (t, if attempt + 1 < oidcProvisionAttempts then .naming args (attempt + 1) 0
      else .failed .conflict)
  | some (.error e) => some (t, .failed e)

/-- The second insert. -/
def insertIdentityStep (args : ResolveArgs) (userID : Uuid) (now : Instant) (t : AccountTables) :
    Option (AccountTables × AccountCall) :=
  match t.insertIdentity userID args.provider.id args.subject args.email now with
  | none => none
  | some (.ok t') => some (t', .commit args userID)
  | some (.error .conflict) => some (t.rollbackAccount userID, .reread args)
  | some (.error e) => some (t.rollbackAccount userID, .failed e)

/-- The look-up of the identity that has won. -/
def rereadIdentityStep (args : ResolveArgs) (t : AccountTables) : AccountCall :=
  match t.oidc.FindOIDCIdentity args.provider.id args.subject with
  | .ok identity => .reload args identity.userID
  | .error e => .failed e

def reloadAccountStep (args : ResolveArgs) (userID : Uuid) (t : AccountTables) : AccountCall :=
  match t.accounts.GetUserByID userID with
  | .ok user => .done (.resolved args user)
  | .error e => .failed e

def registerStep (registration : Registration) (id : Uuid) (t : AccountTables) :
    Option (AccountTables × AccountCall) :=
  match t.registerUser (registration.row id) with
  | none => none
  | some (.ok t') => some (t', .done (.registered (registration.row id)))
  | some (.error e) => some (t, .failed e)

/-- The next step of a call. -/
def accountStep (now : Instant) (id : Uuid) (t : AccountTables) :
    AccountCall → Option (AccountTables × AccountCall)
  | .idle | .done _ => none
  | .find args => some (t, findIdentityStep args t)
  | .touch args identity =>
    -- the error is dropped
    some ({ t with oidc := (t.oidc.TouchOIDCIdentity identity.id args.email now).2 },
      .load args identity.userID)
  | .load args userID => some (t, loadAccountStep args userID t)
  | .naming args attempt tried => some (t, namingStep u sha256 args attempt tried t)
  | .insertUser args attempt username => insertUserStep args attempt username id t
  | .insertIdentity args userID => insertIdentityStep args userID now t
  | .commit args userID => some (t.commitAccount userID, .reload args userID)
  | .reread args => some (t, rereadIdentityStep args t)
  | .reload args userID => some (t, reloadAccountStep args userID t)
  | .register registration => registerStep registration id t

/-- Undisturbed, the look-ups of a call come to the name of `uniqueUsername`. -/
theorem naming_reaches {args : ResolveArgs} {attempt tried : ℕ} {t : AccountTables}
    {now : Instant} {id : Uuid}
    (htried : tried < (usernameCandidates (args.base u sha256)).length)
    (htaken : ∀ name ∈ (usernameCandidates (args.base u sha256)).take tried,
      t.accounts.taken name) :
    Relation.ReflTransGen (fun call call' => accountStep u sha256 now id t call = some (t, call'))
      (.naming args attempt tried)
      (.insertUser args attempt (uniqueUsername (args.base u sha256) t.accounts.taken)) := by
  rw [uniqueUsername_eq_find]
  generalize hnames : usernameCandidates (args.base u sha256) = names at htried htaken ⊢
  induction hleft : names.length - tried generalizing tried with
  | zero => omega
  | succ left ih =>
    have hname : names.getD tried (args.base u sha256) = names[tried] := by
      rw [List.getD_eq_getElem?_getD, List.getElem?_eq_getElem htried, Option.getD_some]
    have hstep : accountStep u sha256 now id t (.naming args attempt tried) =
        some (t, if !t.accounts.taken names[tried] then .insertUser args attempt names[tried]
          else if tried + 1 < names.length then .naming args attempt (tried + 1)
          else .insertUser args attempt
            (withUsernameSuffix (args.base u sha256) oidcUsernameSuffixes)) := by
      rw [accountStep, namingStep, hnames, hname]
    have hsplit : names = names.take tried ++ names[tried] :: names.drop (tried + 1) := by
      rw [← List.drop_eq_getElem_cons htried, List.take_append_drop]
    have hnext : names.take (tried + 1) = names.take tried ++ [names[tried]] :=
      List.take_succ_eq_append_getElem htried
    cases hfree : t.accounts.taken names[tried] with
    | false =>
      rw [hfree, Bool.not_false, if_pos rfl] at hstep
      have hfind : names.find? (fun name => !t.accounts.taken name) = some names[tried] := by
        refine List.find?_eq_some_iff_append.mpr ⟨by rw [hfree]; rfl, _, _, hsplit, ?_⟩
        intro name hname'
        rw [htaken name hname']
        rfl
      rw [hfind, Option.getD_some]
      exact .single hstep
    | true =>
      rw [hfree, Bool.not_true, if_neg (by simp)] at hstep
      have htaken' : ∀ name ∈ names.take (tried + 1), t.accounts.taken name := by
        rw [hnext, List.forall_mem_append]
        exact ⟨htaken, List.forall_mem_singleton.mpr hfree⟩
      by_cases hmore : tried + 1 < names.length
      · rw [if_pos hmore] at hstep
        exact .head hstep (ih hmore htaken' (by omega))
      · rw [if_neg hmore] at hstep
        have hfind : names.find? (fun name => !t.accounts.taken name) = none := by
          rw [List.find?_eq_none]
          intro name hname'
          rw [← List.take_of_length_le (Nat.le_of_not_lt hmore)] at hname'
          rw [htaken' name hname']
          simp
        rw [hfind, Option.getD_none]
        exact .single hstep
/-- The tables after the connection of a call is gone. -/
def released (t : AccountTables) (call : AccountCall) : AccountTables :=
  match call.held with
  | none => t
  | some userID => t.rollbackAccount userID

/-- The calls as processes, one each. -/
def accountCalls : Process AccountTables AccountCall AccountAction where
  step t call
    | .start request =>
      match call with
      | .idle => some (t, request.call)
      | _ => none
    | .next now id => accountStep u sha256 now id t call
    | .fail => if call.free then none else some (released t call, .failed .database)
    | .lost now id =>
      (accountStep u sha256 now id t call).map fun r => (released r.1 r.2, .failed .database)

end

end Purels.Service
