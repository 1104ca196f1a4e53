import Purels.Go.Errors

/-!
# Errors of the store

The sentinel errors of the packages as error values, and what the store makes of the errors of
the database driver.

* `Sentinel` and `Sentinel.error`.
* `normalizeDBError`, `IsDBError`: the classification.
* `Handling` and `StoreCall`: what each method does with the errors of its statements.
-/

namespace Purels.Store

open Go

/-! ## Sentinels -/

/-- The errors that are compared with `errors.Is`, and the `ErrNoRows` of the driver. -/
inductive Sentinel where
  | notFound
  | conflict
  | lastCapabilityHolder
  | quotaExceeded
  | invalidCredentials
  | invalidSecondFactor
  | twoFactorUnavailable
  | noEnrolment
  | secretsUnavailable
  | oidcSlugImmutable
  | captchaSecretsUnavailable
  | captchaUnavailable
  | captchaInvalid
  | captchaInvalidSettings
  | analyticsInvalid
  | noRows
  deriving DecidableEq

/-- The text of a sentinel. -/
def Sentinel.text : Sentinel → GoString
  | .notFound => lit "not found"
  | .conflict => lit "conflict"
  | .lastCapabilityHolder => lit "at least one enabled account must keep this permission"
  | .quotaExceeded => lit "link quota reached"
  | .invalidCredentials => lit "invalid credentials"
  | .invalidSecondFactor => lit "invalid or expired verification code"
  | .twoFactorUnavailable => lit "two-factor authentication is not available on this deployment"
  | .noEnrolment => lit "no enrolment is in progress"
  | .secretsUnavailable =>
    lit "this deployment cannot store encrypted secrets; set SECRET_ENCRYPTION_KEY"
  | .oidcSlugImmutable => lit "the slug cannot be changed; add a separate provider instead"
  | .captchaSecretsUnavailable => lit "CAPTCHA secret encryption is unavailable"
  | .captchaUnavailable => lit "CAPTCHA verification is unavailable"
  | .captchaInvalid => lit "invalid CAPTCHA verification"
  | .captchaInvalidSettings => lit "invalid CAPTCHA settings"
  | .analyticsInvalid => lit "invalid analytics settings"
  | .noRows => lit "no rows in result set"

/-- An error, with the SQLSTATE of each `PgError` in it. -/
abbrev Failure := GoError Sentinel GoString

def Sentinel.error (s : Sentinel) : Failure := .value (some s) s.text

/-! ## Classification -/

/-- `normalizeDBError`. -/
def normalizeDBError (e : Failure) : Failure :=
  match e.as with
  | none => e
  | some code =>
    if code = lit "23505" then Sentinel.conflict.error
    else if code = lit "23503" then .value none (lit "referenced record does not exist")
    else if code = lit "22P02" then Sentinel.notFound.error
    else e

/-- `IsDBError`. -/
def IsDBError (e : Failure) : Bool := e.as.isSome

/-! ## Methods -/

/-- What a method does with the error of one of its statements. -/
inductive Handling where
  /-- Returns it. -/
  | raw
  /-- Returns what `normalizeDBError` makes of it. -/
  | normalized
  /-- Returns the sentinel for `ErrNoRows`, and does otherwise with the rest. -/
  | noRows (sentinel : Sentinel) (rest : Handling)
  /-- Takes `ErrNoRows` for an answer, and returns the rest. -/
  | absent
  deriving DecidableEq

/-- The error that the method returns, unless there is none. -/
def Handling.returned (e : Failure) : Handling → Option Failure
  | .raw => some e
  | .normalized => some (normalizeDBError e)
  | .noRows sentinel rest => if e.is .noRows then some sentinel.error else rest.returned e
  | .absent => if e.is .noRows then none else some e

/-- The error is classified: it has a `PgError` in it, or it is a missing row where the method
expects one. -/
def Handling.recognises (e : Failure) : Handling → Bool
  | .raw | .normalized => IsDBError e
  | .noRows _ rest => e.is .noRows || rest.recognises e
  | .absent => e.is .noRows || IsDBError e

/-- The methods whose errors a handler answers through `writeServiceError`, or that the report
of an import shows. -/
inductive StoreCall where
  | getAnalyticsSettings
  | updateAnalyticsSettings
  | getCaptchaSettings
  | updateCaptchaSettings
  | getMFAState
  | setTOTPSecret
  | confirmTOTP
  | clearTOTP
  | createMFAChallenge
  | claimMFAChallenge
  | consumeMFAChallenge
  | spendRecoveryCode
  | getOIDCProvider
  | createOIDCProvider
  | updateOIDCProvider
  | deleteOIDCProvider
  | getRole
  | updateRoleScopes
  | updateUser
  | updateRuntimeSettings
  | compareAndSwapRuntimeSettings
  | createUser
  | findUser
  | createSession
  | createLink
  | nextAliasValue
  | getLinkByAlias
  | findLiveLinkByDestination
  | getLink
  | updateLink
  | deleteLink
  | bulkLinkUpdate
  | bulkTagLinks
  | countLinksByOwner
  | recordLinkHealth
  | createToken
  | revokeToken
  deriving DecidableEq

/-- `scanLink`. -/
def scanLink : Handling := .noRows .notFound .normalized

/-- The statements of each method, the start and the commit of a transaction among them, each
with what is done about its error. -/
def StoreCall.statements : StoreCall → List Handling
  | .getAnalyticsSettings | .getCaptchaSettings | .getMFAState | .getOIDCProvider | .getRole =>
    [.noRows .notFound .raw]
  -- The update, and the row read again.
  | .updateAnalyticsSettings | .updateCaptchaSettings | .createOIDCProvider | .updateOIDCProvider =>
    [.normalized, .noRows .notFound .raw]
  | .setTOTPSecret | .clearTOTP => [.raw, .raw, .raw, .raw]
  | .confirmTOTP => [.raw, .raw, .raw, .raw, .raw]
  | .createMFAChallenge => [.raw, .raw]
  | .claimMFAChallenge | .findUser => [.absent]
  | .consumeMFAChallenge | .spendRecoveryCode | .createSession | .nextAliasValue | .deleteLink |
    .countLinksByOwner | .recordLinkHealth | .revokeToken => [.raw]
  | .deleteOIDCProvider | .createUser | .createToken => [.normalized]
  -- The start, the lock, the update, the counts of the holders, and the commit.
  | .updateRoleScopes | .updateUser => [.raw, .raw, .normalized, .raw, .raw]
  | .updateRuntimeSettings => [.noRows .notFound .normalized]
  | .compareAndSwapRuntimeSettings => [.noRows .conflict .normalized]
  -- The start, the row, its tags and its rules, and the commit.
  | .createLink | .updateLink => [.raw, .normalized, .raw, .raw, .raw]
  | .getLinkByAlias | .findLiveLinkByDestination | .getLink => [scanLink]
  -- The query, each row, and the end of the rows.
  | .bulkLinkUpdate => [.raw, .raw, .raw]
  | .bulkTagLinks => [.raw, .raw, .raw, .raw]

end Purels.Store
