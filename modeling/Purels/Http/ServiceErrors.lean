import Purels.Store.Errors

/-!
# Errors that a client reads

The two places that turn an error into text for a client.

* `ErrorResponse`, `errorCases` and `writeServiceError`: the answer of a handler.
* `rowErrorText`: `rowError`, the report of an import.
-/

namespace Purels.Http

open Go Store

/-- The status, the code, which is left out when it is empty, and the message. -/
structure ErrorResponse where
  status : Nat
  code : String
  message : GoString
  deriving DecidableEq

/-- A case of the switch: a message of its own, or the text of the error. -/
structure ErrorCase where
  sentinel : Sentinel
  status : Nat
  code : String
  message : Option String := none

/-- The cases of `writeServiceError`, in their order. -/
def errorCases : List ErrorCase := [
  ⟨.notFound, 404, "not_found", some "resource not found"⟩,
  ⟨.conflict, 409, "conflict", some "resource already exists"⟩,
  ⟨.lastCapabilityHolder, 409, "last_capability_holder", none⟩,
  ⟨.quotaExceeded, 429, "quota_exceeded", none⟩,
  ⟨.invalidCredentials, 401, "invalid_credentials", none⟩,
  ⟨.invalidSecondFactor, 401, "invalid_second_factor", none⟩,
  ⟨.twoFactorUnavailable, 409, "two_factor_unavailable", none⟩,
  ⟨.noEnrolment, 409, "no_enrolment", none⟩,
  ⟨.secretsUnavailable, 409, "secrets_unavailable", none⟩,
  ⟨.oidcSlugImmutable, 409, "oidc_slug_immutable", none⟩,
  ⟨.captchaSecretsUnavailable, 409, "captcha_secrets_unavailable", none⟩,
  ⟨.captchaUnavailable, 503, "captcha_unavailable", none⟩,
  ⟨.captchaInvalid, 400, "captcha_invalid", none⟩,
  ⟨.captchaInvalidSettings, 400, "captcha_invalid_settings", none⟩,
  ⟨.analyticsInvalid, 400, "analytics_invalid", none⟩]

/-- `writeServiceError`. -/
def writeServiceError (e : Failure) : ErrorResponse :=
  match errorCases.find? fun c => e.is c.sentinel with
  | some c => ⟨c.status, c.code, (c.message.map lit).getD e.text⟩
  | none =>
    if IsDBError e then ⟨500, "internal_error", lit "internal server error"⟩
    else ⟨400, "", e.text⟩

/-- `rowError`: the reason that the report of an import gives. -/
def rowErrorText (e : Failure) : GoString :=
  if IsDBError e then lit "could not be saved" else e.text

end Purels.Http
