import Purels.Security.SecondFactor
import Purels.Store.Mfa

/-!
# The two-factor service

`TwoFactorService`, with each call run alone.

* `AuthConfig`: what a deployment fixes.  The master switch is a runtime setting and
  comes with each call.
* `Status`, `Enroll`, `Confirm`, `Disable`, `Reset`: the calls.
-/

namespace Purels.Service

open Go Security Store

/-- `mfaAttemptLimit`. -/
def mfaAttemptLimit : Nat := 5

/-- `recoveryCodeCount`. -/
abbrev recoveryCodeCount : Nat := 10

/-- The key material and the lifetimes of a deployment. -/
structure AuthConfig where
  u : Unicode
  crypto : Crypto
  box : SecretBox
  /-- `SecretsAvailable`: a key is configured. -/
  secretsAvailable : Bool
  challengeTTL : Int
  sessionTTL : Int

/-- What an enrolment draws, and the error of its QR code, if there is one. -/
structure EnrollDraw where
  secret : Fin 20 → UInt8
  nonce : List UInt8
  qrError : Option ServiceError := none

/-- `domain.MFAStatus`. -/
structure MFAStatus where
  available : Bool
  enabled : Bool := false
  pending : Bool := false
  recoveryCodesRemaining : Nat := 0

namespace TwoFactorService

variable (cfg : AuthConfig) (totpEnabled : Bool)

/-- `available`. -/
def available : Bool := totpEnabled && cfg.secretsAvailable

/-- `verifySecret`. -/
def verifySecret (sealed : List UInt8) (code : GoString) (now : Instant) : Bool :=
  match cfg.box.Open cfg.crypto sealed with
  | none => false
  | some plaintext => VerifyTOTP cfg.u cfg.crypto plaintext code now

/-- `Status`. -/
def Status (userID : Uuid) (s : MfaStore) : MFAStatus :=
  match s.GetMFAState userID with
  | .error _ => { available := available cfg totpEnabled }
  | .ok state =>
    { available := available cfg totpEnabled
      enabled := state.Enrolled
      pending := state.secret != [] && !state.Enrolled
      recoveryCodesRemaining := s.CountRecoveryCodes userID }

/-- The secret an enrolment makes, sealed. -/
def newSecret (draw : EnrollDraw) : Except ServiceError (List UInt8) :=
  if !available cfg totpEnabled then .error .twoFactorUnavailable
  else
    match cfg.box.Seal cfg.crypto draw.nonce (newTOTPSecret draw.secret) with
    | none => .error (.invalid "no encryption key configured")
    | some sealed => .ok sealed

/-- What `Enroll` returns once the secret is stored. -/
def enrollment (draw : EnrollDraw) : Except ServiceError GoString :=
  match draw.qrError with
  | none => .ok (newTOTPSecret draw.secret)
  | some e => .error e

/-- `Enroll`. -/
def Enroll (userID : Uuid) (draw : EnrollDraw) (s : MfaStore) :
    Except ServiceError GoString × MfaStore :=
  match newSecret cfg totpEnabled draw with
  | .error e => (.error e, s)
  | .ok sealed =>
    match s.SetTOTPSecret userID sealed with
    | (.error e, s) => (.error e, s)
    | (.ok (), s) => (enrollment draw, s)

/-- The recovery codes of a confirmation, of what it draws. -/
def recoveryCodes (draws : Fin recoveryCodeCount → Fin 10 → UInt8) : List GoString :=
  List.ofFn fun i => newRecoveryCode (draws i)

/-- The hashes that are stored of them. -/
def recoveryHashes (codes : List GoString) : List (List UInt8) :=
  codes.map fun code => cfg.crypto.sha256 (NormalizeRecoveryCode cfg.u code)

/-- The secret a confirmation has checked its code against. -/
def confirmable (userID : Uuid) (code : GoString) (now : Instant) (s : MfaStore) :
    Except ServiceError (List UInt8) :=
  if !available cfg totpEnabled then .error .twoFactorUnavailable
  else
    match s.GetMFAState userID with
    | .error e => .error e
    | .ok state =>
      if state.secret = [] then .error .noEnrolment
      else if verifySecret cfg state.secret code now then .ok state.secret
      else .error .invalidSecondFactor

/-- `Confirm`. -/
def Confirm (userID : Uuid) (code : GoString) (draws : Fin recoveryCodeCount → Fin 10 → UInt8)
    (now : Instant) (s : MfaStore) : Except ServiceError (List GoString) × MfaStore :=
  match confirmable cfg totpEnabled userID code now s with
  | .error e => (.error e, s)
  | .ok _ =>
    match s.ConfirmTOTP userID (recoveryHashes cfg (recoveryCodes draws)) now with
    | (.error e, s) => (.error e, s)
    | (.ok (), s) => (.ok (recoveryCodes draws), s)

/-- The password check of `Disable`. -/
def passwordAccepted (username password : GoString) (s : MfaStore) : Bool :=
  match s.users.find? (·.username == username) with
  | none => false
  | some user => !user.disabled && cfg.crypto.checkPassword password user.passwordHash

/-- The code check of `Disable`. -/
def disableError (userID : Uuid) (code : GoString) (now : Instant) (s : MfaStore) :
    Option ServiceError :=
  match s.GetMFAState userID with
  | .error e => some e
  | .ok state =>
    if !state.Enrolled then some .noEnrolment
    else if verifySecret cfg state.secret code now then none
    else some .invalidSecondFactor

/-- `Disable`. -/
def Disable (userID : Uuid) (username password code : GoString) (now : Instant) (s : MfaStore) :
    Except ServiceError Unit × MfaStore :=
  if !available cfg totpEnabled then (.error .twoFactorUnavailable, s)
  else if !passwordAccepted cfg username password s then (.error .invalidCredentials, s)
  else
    match disableError cfg userID code now s with
    | some e => (.error e, s)
    | none => s.ClearTOTP userID

/-- `Reset`. -/
def Reset (userID : Uuid) (s : MfaStore) : Except ServiceError Unit × MfaStore := s.ClearTOTP userID

end TwoFactorService

end Purels.Service
