import Purels.Lib.Processes
import Purels.Service.TwoFactor

/-!
# Sign-ins, statement by statement

Logins, `VerifySecondFactor` and the self-service calls of the second factor as
processes over the tables.  One step is one statement with the computation that
follows it; `SetTOTPSecret`, `ConfirmTOTP` and `ClearTOTP` are one step each, since
their transaction holds the account's row from its first statement to the commit.

* `Claimed` and `AuthWorld`: the tables, and a history of the claims, one entry for
  each call whose claim succeeded.  No step reads the history.
* `AuthCall`: how far a call has come.
* `authStep` and `authCalls`: the steps.
-/

namespace Purels.Service

open Go Security Store TwoFactorService Lib

/-! ## The shared state -/

/-- What has become of a call that has claimed a challenge. -/
structure Claimed where
  challenge : Nat
  claimedAt : Instant
  /-- It has come to the code check. -/
  checked : Bool := false
  /-- The recovery code that was accepted. -/
  spent : Option Nat := none
  /-- It has run `ConsumeMFAChallenge`. -/
  consumed : Bool := false
  /-- It has created a session. -/
  session : Bool := false
  deriving DecidableEq

structure AuthWorld where
  store : MfaStore
  history : List Claimed := []

/-- Notes something about the call with entry `k`. -/
def AuthWorld.note (w : AuthWorld) (k : Nat) (set : Claimed → Claimed) : AuthWorld :=
  { w with history := w.history.modify k set }

/-! ## Calls -/

/-- The client of a sign-in, and the tokens it draws. -/
structure SignIn where
  userAgent : GoString
  ipHash : List UInt8
  challengeToken : GoString
  sessionToken : GoString
  csrfToken : GoString

/-- A call with its arguments, what it will draw, and the master switch. -/
inductive AuthRequest where
  | login (username password : GoString) (totpEnabled : Bool) (client : SignIn)
  | verify (challenge code : GoString) (client : SignIn)
  | enroll (userID : Uuid) (totpEnabled : Bool) (draw : EnrollDraw)
  | confirm (userID : Uuid) (totpEnabled : Bool) (code : GoString)
      (draws : Fin recoveryCodeCount → Fin 10 → UInt8)
  | disable (userID : Uuid) (username password code : GoString) (totpEnabled : Bool)
  | reset (userID : Uuid)

/-- What a call returns. -/
inductive AuthResult where
  | challenge (token : GoString)
  | session (token : GoString)
  | enrolled (secret : GoString)
  | confirmed (codes : List GoString)
  | done
  | failed (e : ServiceError)
  deriving DecidableEq

/-- Where a call stands: the next thing it does. -/
inductive AuthCall where
  | idle
  /-- Looks the account up and checks the password. -/
  | login (username password : GoString) (totpEnabled : Bool) (client : SignIn)
  /-- Reads the factor of the account. -/
  | startFactor (userID : Uuid) (client : SignIn)
  /-- Sweeps the expired challenges. -/
  | sweep (userID : Uuid) (client : SignIn)
  /-- Inserts a challenge. -/
  | insertChallenge (userID : Uuid) (client : SignIn)
  /-- Creates a session, the password being enough. -/
  | loginSession (userID : Uuid) (client : SignIn)
  /-- Claims the challenge. -/
  | claim (hash : List UInt8) (code : GoString) (client : SignIn)
  /-- Reads the factor of the account and checks the code. -/
  | checkCode (k : Nat) (hash : List UInt8) (userID : Uuid) (code : GoString) (client : SignIn)
  /-- Spends the code as a recovery code. -/
  | spend (k : Nat) (hash : List UInt8) (userID : Uuid) (codeHash : List UInt8) (client : SignIn)
  /-- Consumes the challenge. -/
  | consume (k : Nat) (hash : List UInt8) (userID : Uuid) (client : SignIn)
  /-- Reads the account. -/
  | readUser (k : Nat) (userID : Uuid) (client : SignIn)
  /-- Creates a session. -/
  | verifySession (k : Nat) (userID : Uuid) (client : SignIn)
  /-- Stores the new secret. -/
  | setSecret (userID : Uuid) (sealed : List UInt8) (draw : EnrollDraw)
  /-- Reads the secret and checks the code. -/
  | confirm (userID : Uuid) (totpEnabled : Bool) (code : GoString)
      (draws : Fin recoveryCodeCount → Fin 10 → UInt8)
  /-- Confirms the stored secret, having checked the code against `secret` at `checkedAt`. -/
  | confirmWrite (userID : Uuid) (secret : List UInt8) (code : GoString) (checkedAt : Instant)
      (codes : List GoString)
  /-- Looks the account up and checks the password. -/
  | disable (userID : Uuid) (username password code : GoString)
  /-- Reads the secret and checks the code. -/
  | disableCheck (userID : Uuid) (code : GoString)
  /-- Clears the factor. -/
  | clear (userID : Uuid)
  | done (result : AuthResult)

/-- A label: a process starts a call, or takes its next step at a time of the clock. -/
inductive AuthAction where
  | start (request : AuthRequest)
  | next (now : Instant)

/-- No call is in progress. -/
def AuthCall.free : AuthCall → Bool
  | .idle | .done _ => true
  | _ => false

/-- The entry of the history that a call writes on. -/
def AuthCall.entry : AuthCall → Option Nat
  | .checkCode k .. | .spend k .. | .consume k .. | .readUser k .. | .verifySession k .. => some k
  | _ => none

/-- The entry of a call that has come past `ConsumeMFAChallenge`. -/
def AuthCall.retired : AuthCall → Option Nat
  | .readUser k .. | .verifySession k .. => some k
  | _ => none

section

variable (cfg : AuthConfig)

/-- The call a request begins as, with the checks that read no table. -/
def AuthRequest.call : AuthRequest → AuthCall
  | .login username password totpEnabled client =>
    .login (toLower cfg.u (trimSpace username)) password totpEnabled client
  | .verify challenge code client =>
    if trimSpace challenge = [] then .done (.failed .invalidSecondFactor)
    else .claim (cfg.crypto.sha256 (trimSpace challenge)) code client
  | .enroll userID totpEnabled draw =>
    match newSecret cfg totpEnabled draw with
    | .error e => .done (.failed e)
    | .ok sealed => .setSecret userID sealed draw
  | .confirm userID totpEnabled code draws => .confirm userID totpEnabled code draws
  | .disable userID username password code totpEnabled =>
    if available cfg totpEnabled then .disable userID username password code
    else .done (.failed .twoFactorUnavailable)
  | .reset userID => .clear userID

/-- The session of a client. -/
def SignIn.row (client : SignIn) (userID : Uuid) (now : Instant) : SessionRow where
  userID := userID
  tokenHash := cfg.crypto.sha256 client.sessionToken
  csrfHash := cfg.crypto.sha256 client.csrfToken
  expiresAt := now + cfg.sessionTTL
  userAgent := client.userAgent
  ipHash := client.ipHash

/-! ## Steps -/

/-- The password check of `Login`, and whether `startSecondFactor` looks further. -/
def loginStep (username password : GoString) (totpEnabled : Bool) (client : SignIn)
    (w : AuthWorld) : AuthCall :=
  match w.store.users.find? (·.username == username) with
  | none => .done (.failed .invalidCredentials)
  | some user =>
    if user.disabled || !cfg.crypto.checkPassword password user.passwordHash then
      .done (.failed .invalidCredentials)
    else if available cfg totpEnabled then .startFactor user.id client
    else .loginSession user.id client

/-- The read of `startSecondFactor`. -/
def startFactorStep (userID : Uuid) (client : SignIn) (w : AuthWorld) : AuthCall :=
  match w.store.GetMFAState userID with
  | .error _ => .loginSession userID client
  | .ok state => if state.Enrolled then .sweep userID client else .loginSession userID client

/-- The claim of `VerifySecondFactor`. -/
def claimStep (hash : List UInt8) (code : GoString) (client : SignIn) (now : Instant)
    (w : AuthWorld) : AuthWorld × AuthCall :=
  match w.store.ClaimMFAChallenge hash mfaAttemptLimit now with
  | (none, store) => ({ w with store }, .done (.failed .invalidSecondFactor))
  | (some row, store) =>
    ({ store, history := w.history ++ [⟨row.id, now, false, none, false, false⟩] },
      .checkCode w.history.length hash row.userID code client)

/-- The read of `VerifySecondFactor`, and `codeAccepted` as far as the recovery codes. -/
def checkCodeStep (k : Nat) (hash : List UInt8) (userID : Uuid) (code : GoString)
    (client : SignIn) (now : Instant) (w : AuthWorld) : AuthWorld × AuthCall :=
  match w.store.GetMFAState userID with
  | .error _ => (w, .done (.failed .invalidSecondFactor))
  | .ok state =>
    if !state.Enrolled then (w, .done (.failed .invalidSecondFactor))
    else
      (w.note k fun entry => { entry with checked := true },
        match cfg.box.Open cfg.crypto state.secret with
        | none => .done (.failed .invalidSecondFactor)
        | some plaintext =>
          if VerifyTOTP cfg.u cfg.crypto plaintext code now then .consume k hash userID client
          else if NormalizeRecoveryCode cfg.u code = [] then .done (.failed .invalidSecondFactor)
          else
            .spend k hash userID (cfg.crypto.sha256 (NormalizeRecoveryCode cfg.u code)) client)

/-- The recovery code of `codeAccepted`. -/
def spendStep (k : Nat) (hash : List UInt8) (userID : Uuid) (codeHash : List UInt8)
    (client : SignIn) (now : Instant) (w : AuthWorld) : AuthWorld × AuthCall :=
  match w.store.SpendRecoveryCode userID codeHash now with
  | (none, store) => ({ w with store }, .done (.failed .invalidSecondFactor))
  | (some row, store) =>
    (AuthWorld.note { w with store } k fun entry => { entry with spent := some row.id },
      .consume k hash userID client)

/-- The session of `VerifySecondFactor`. -/
def verifySessionStep (k : Nat) (userID : Uuid) (client : SignIn) (now : Instant)
    (w : AuthWorld) : AuthWorld × AuthCall :=
  match w.store.CreateSession (client.row cfg userID now) with
  | (.error e, store) => ({ w with store }, .done (.failed e))
  | (.ok (), store) =>
    (AuthWorld.note { w with store } k fun entry => { entry with session := true },
      .done (.session client.sessionToken))

/-- The write of `Enroll`. -/
def setSecretStep (userID : Uuid) (sealed : List UInt8) (draw : EnrollDraw) (w : AuthWorld) :
    AuthWorld × AuthCall :=
  match w.store.SetTOTPSecret userID sealed with
  | (.error e, store) => ({ w with store }, .done (.failed e))
  | (.ok (), store) =>
    ({ w with store },
      match enrollment draw with
      | .error e => .done (.failed e)
      | .ok secret => .done (.enrolled secret))

/-- The read of `Confirm`. -/
def confirmStep (userID : Uuid) (totpEnabled : Bool) (code : GoString)
    (draws : Fin recoveryCodeCount → Fin 10 → UInt8) (now : Instant) (w : AuthWorld) : AuthCall :=
  match confirmable cfg totpEnabled userID code now w.store with
  | .error e => .done (.failed e)
  | .ok secret => .confirmWrite userID secret code now (recoveryCodes draws)

/-- The write of `Confirm`. -/
def confirmWriteStep (userID : Uuid) (codes : List GoString) (now : Instant) (w : AuthWorld) :
    AuthWorld × AuthCall :=
  match w.store.ConfirmTOTP userID (recoveryHashes cfg codes) now with
  | (.error e, store) => ({ w with store }, .done (.failed e))
  | (.ok (), store) => ({ w with store }, .done (.confirmed codes))

/-- The next step of a call. -/
def authStep (now : Instant) (w : AuthWorld) : AuthCall → Option (AuthWorld × AuthCall)
  | .idle | .done _ => none
  | .login username password totpEnabled client =>
    some (w, loginStep cfg username password totpEnabled client w)
  | .startFactor userID client => some (w, startFactorStep userID client w)
  | .sweep userID client =>
    some ({ w with store := w.store.sweepChallenges now }, .insertChallenge userID client)
  | .insertChallenge userID client =>
    match w.store.insertChallenge userID (cfg.crypto.sha256 client.challengeToken)
      (now + cfg.challengeTTL) with
    | (.error e, store) => some ({ w with store }, .done (.failed e))
    | (.ok (), store) => some ({ w with store }, .done (.challenge client.challengeToken))
  | .loginSession userID client =>
    match w.store.CreateSession (client.row cfg userID now) with
    | (.error e, store) => some ({ w with store }, .done (.failed e))
    | (.ok (), store) => some ({ w with store }, .done (.session client.sessionToken))
  | .claim hash code client => some (claimStep hash code client now w)
  | .checkCode k hash userID code client =>
    some (checkCodeStep cfg k hash userID code client now w)
  | .spend k hash userID codeHash client => some (spendStep k hash userID codeHash client now w)
  | .consume k hash userID client =>
    some (AuthWorld.note { w with store := w.store.ConsumeMFAChallenge hash now } k
      fun entry => { entry with consumed := true }, .readUser k userID client)
  | .readUser k userID client =>
    match w.store.GetUserByID userID with
    | .error _ => some (w, .done (.failed .invalidSecondFactor))
    | .ok _ => some (w, .verifySession k userID client)
  | .verifySession k userID client => some (verifySessionStep cfg k userID client now w)
  | .setSecret userID sealed draw => some (setSecretStep userID sealed draw w)
  | .confirm userID totpEnabled code draws =>
    some (w, confirmStep cfg userID totpEnabled code draws now w)
  | .confirmWrite userID _ _ _ codes => some (confirmWriteStep cfg userID codes now w)
  | .disable userID username password code =>
    some (w, if passwordAccepted cfg username password w.store then .disableCheck userID code
      else .done (.failed .invalidCredentials))
  | .disableCheck userID code =>
    some (w, match disableError cfg userID code now w.store with
      | some e => .done (.failed e)
      | none => .clear userID)
  | .clear userID =>
    match w.store.ClearTOTP userID with
    | (.error e, store) => some ({ w with store }, .done (.failed e))
    | (.ok (), store) => some ({ w with store }, .done .done)

/-- The calls as processes. -/
def authCalls : Process AuthWorld AuthCall AuthAction where
  step w call
    | .start request => if call.free then some (w, request.call cfg) else none
    | .next now => authStep cfg now w call

end

end Purels.Service
