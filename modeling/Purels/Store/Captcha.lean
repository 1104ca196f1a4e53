import Purels.Store.Oidc

/-!
# The settings of the registration CAPTCHA

The singleton table `captcha_settings`, whose row a migration makes.

* `CaptchaRow` and `CaptchaSettings`: the row, and what every read but one returns of it.
* `GetCaptchaSettings`, `GetCaptchaSecret`, `UpdateCaptchaSettings`: the statements.
-/

namespace Purels.Store

open Go

/-- The row of `captcha_settings`.  Its provider is always `turnstile`. -/
structure CaptchaRow where
  enabled : Bool := false
  siteKey : Option GoString := none
  secret : Option (List UInt8) := none
  expectedHostname : Option GoString := none
  expectedAction : Option GoString := none
  updatedAt : Instant := 0
  deriving DecidableEq

/-- `domain.CaptchaSettings`. -/
structure CaptchaSettings where
  provider : GoString := lit "turnstile"
  enabled : Bool
  siteKey : GoString
  hasSecret : Bool
  expectedHostname : GoString
  expectedAction : GoString
  updatedAt : Instant
  deriving DecidableEq

/-- `scanCaptchaSettings`: what is not set is empty. -/
def CaptchaRow.toSettings (row : CaptchaRow) : CaptchaSettings where
  enabled := row.enabled
  siteKey := row.siteKey.getD []
  hasSecret := row.secret.isSome
  expectedHostname := row.expectedHostname.getD []
  expectedAction := row.expectedAction.getD []
  updatedAt := row.updatedAt

/-- `GetCaptchaSettings`. -/
def GetCaptchaSettings (row : Option CaptchaRow) : Except ServiceError CaptchaSettings :=
  match row with
  | none => .error .notFound
  | some row => .ok row.toSettings

/-- `GetCaptchaSecret`: no secret is the empty one. -/
def GetCaptchaSecret (row : Option CaptchaRow) : Except ServiceError (List UInt8) :=
  match row with
  | none => .error .notFound
  | some row => .ok (row.secret.getD [])

/-- The row after an update.  Without a new secret the old one stays. -/
def updatedCaptcha (settings : CaptchaSettings) (secret : Option (List UInt8)) (now : Instant)
    (row : CaptchaRow) : CaptchaRow where
  enabled := settings.enabled
  siteKey := nullableText settings.siteKey
  secret := if secret.isSome then secret else row.secret
  expectedHostname := nullableText settings.expectedHostname
  expectedAction := nullableText settings.expectedAction
  updatedAt := now

/-- The update of `UpdateCaptchaSettings`. -/
def UpdateCaptchaSettings (row : Option CaptchaRow) (settings : CaptchaSettings)
    (secret : Option (List UInt8)) (now : Instant) :
    Except ServiceError Unit × Option CaptchaRow :=
  if !(storableText settings.siteKey && storableText settings.expectedHostname &&
      storableText settings.expectedAction) then (.error .database, row)
  else
    match row with
    | none => (.error .notFound, none)
    | some row => (.ok (), some (updatedCaptcha settings secret now row))

/-- A successful update has written the row. -/
theorem UpdateCaptchaSettings_ok {row row' : Option CaptchaRow} {settings : CaptchaSettings}
    {secret : Option (List UInt8)} {now : Instant}
    (h : UpdateCaptchaSettings row settings secret now = (.ok (), row')) :
    ∃ before, row = some before ∧ row' = some (updatedCaptcha settings secret now before) := by
  unfold UpdateCaptchaSettings at h
  split_ifs at h
  · cases h
  · cases row with
    | none => cases h
    | some before => exact ⟨before, rfl, (Prod.mk.inj h).2.symm⟩

/-- One that fails has written nothing. -/
theorem UpdateCaptchaSettings_error {row row' : Option CaptchaRow} {settings : CaptchaSettings}
    {secret : Option (List UInt8)} {now : Instant} {e : ServiceError}
    (h : UpdateCaptchaSettings row settings secret now = (.error e, row')) : row' = row := by
  unfold UpdateCaptchaSettings at h
  split_ifs at h
  · exact (Prod.mk.inj h).2.symm
  · cases row with
    | none => exact (Prod.mk.inj h).2.symm
    | some before => cases h

/-- Empty text and no text are written alike. -/
theorem nullableText_getD (value : GoString) :
    nullableText ((nullableText value).getD []) = nullableText value := by
  by_cases hempty : value = []
  · rw [hempty]
    rfl
  · have hsome : nullableText value = some value := if_neg hempty
    rw [hsome, Option.getD_some, hsome]

end Purels.Store
