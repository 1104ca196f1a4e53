import Purels.Lib.Edits
import Purels.Lib.Patterns
import Purels.Security.SecondFactor
import Purels.Store.Captcha

/-!
# Edits of the CAPTCHA settings

`CaptchaService.Update` as a process over the row of the settings, statement by statement.

* `CaptchaSettingsInput`: a request; a field may be left out.
* `normalizeCaptchaHostname`, `validateCaptchaSettings`: the checks.
* `mergeCaptcha`, `sealCaptcha`: the settings and the secret that are written.
* `CaptchaEdit`, `nextCaptchaStep` and `captchaEdits`: the steps.
* `captchaUpdates`: they are the steps of an edit of one row.
-/

namespace Purels.Service

open Go Security Store Lib

/-! ## Requests -/

/-- `CaptchaSettingsInput`. -/
structure CaptchaSettingsInput where
  enabled : Option Bool := none
  siteKey : Option GoString := none
  secret : Option GoString := none
  expectedHostname : Option GoString := none
  expectedAction : Option GoString := none

/-- What the service is given of the configuration. -/
structure CaptchaConfig where
  u : Unicode
  crypto : Crypto
  box : SecretBox
  /-- `SecretsAvailable`: a key is configured. -/
  secretsAvailable : Bool

/-- `captchaMaxSecretLength`. -/
abbrev captchaMaxSecretLength : Nat := 4096

/-- `captchaMaxSiteKeyLength`. -/
abbrev captchaMaxSiteKeyLength : Nat := 256

/-- `captchaMaxHostnameLength`. -/
abbrev captchaMaxHostnameLength : Nat := 255

/-- `captchaMaxActionLength`. -/
abbrev captchaMaxActionLength : Nat := 128

/-! ## Checks -/

/-- `captchaHostnamePattern`: `^[a-z0-9](?:[a-z0-9.-]*[a-z0-9])?$`. -/
def captchaHostnamePattern (s : List Nat) : Bool :=
  edged (fun c => isLowerCode c || isDigitCode c)
    (fun c => isLowerCode c || isDigitCode c || c == 0x2E || c == 0x2D) s

/-- `captchaActionPattern`: `^[A-Za-z0-9_-]{1,64}$`. -/
def captchaActionPattern (s : List Nat) : Bool :=
  headed [] (fun c => isAlnumCode c || c == 0x5F || c == 0x2D) 1 64 s

/-- `unicode.IsControl`. -/
def isControl (c : Nat) : Bool := decide (c < 0x20 ∨ 0x7F ≤ c ∧ c < 0xA0)

/-- `validateCaptchaSettings`. -/
def validateCaptchaSettings (settings : CaptchaSettings) : Except ServiceError Unit :=
  if settings.provider ≠ lit "turnstile" then .error .captchaInvalidSettings
  else if captchaMaxSiteKeyLength < settings.siteKey.length ∨
      captchaMaxHostnameLength < settings.expectedHostname.length ∨
      captchaMaxActionLength < settings.expectedAction.length then .error .captchaInvalidSettings
  else if trimSpace settings.siteKey ≠ [] ∧
      (runeCodes settings.siteKey).any (fun c => Go.isSpace c || isControl c) then
    .error .captchaInvalidSettings
  else if settings.expectedHostname ≠ [] ∧
      ¬ captchaHostnamePattern (runeCodes settings.expectedHostname) then
    .error .captchaInvalidSettings
  else if settings.expectedAction ≠ [] ∧
      ¬ captchaActionPattern (runeCodes settings.expectedAction) then
    .error .captchaInvalidSettings
  else if settings.enabled ∧ (trimSpace settings.siteKey = [] ∨ ¬ settings.hasSecret) then
    .error .captchaInvalidSettings
  else .ok ()

/-- `strings.TrimSuffix` of one dot. -/
def trimSuffixDot (s : GoString) : GoString := if s.getLast? = some 0x2E then s.dropLast else s

section

variable (cfg : CaptchaConfig)

/-- `normalizeCaptchaHostname`. -/
def normalizeCaptchaHostname (value : GoString) : GoString :=
  trimSuffixDot (toLower cfg.u (trimSpace value))

/-- The fields of the request over the settings. -/
def mergeCaptcha (input : CaptchaSettingsInput) (settings : CaptchaSettings) : CaptchaSettings :=
  { settings with
    provider := lit "turnstile"
    enabled := input.enabled.getD settings.enabled
    siteKey := (input.siteKey.map trimSpace).getD settings.siteKey
    expectedHostname :=
      (input.expectedHostname.map (normalizeCaptchaHostname cfg)).getD settings.expectedHostname
    expectedAction := (input.expectedAction.map trimSpace).getD settings.expectedAction }

/-- The secret of the request, sealed.  An empty secret is no secret. -/
def sealCaptcha (sealNonce : List UInt8) (secret : Option GoString) :
    Except ServiceError (Option (List UInt8)) :=
  match secret with
  | none => .ok none
  | some secret =>
    if secret = [] then .ok none
    else if captchaMaxSecretLength < secret.length then .error .captchaInvalidSettings
    else if !cfg.secretsAvailable then .error .captchaSecretsUnavailable
    else
      match cfg.box.Seal cfg.crypto sealNonce secret with
      | none => .error .captchaSecretsUnavailable
      | some sealed => .ok (some sealed)

/-- The settings and the secret of an edit, of the settings that were read. -/
def editCaptcha (input : CaptchaSettingsInput) (sealNonce : List UInt8)
    (settings : CaptchaSettings) : Except ServiceError (CaptchaSettings × Option (List UInt8)) :=
  match sealCaptcha cfg sealNonce input.secret with
  | .error e => .error e
  | .ok sealed =>
    let merged := mergeCaptcha cfg input settings
    .ok ({ merged with hasSecret := sealed.isSome || merged.hasSecret }, sealed)

/-- The edit keeps a secret that has to be there, so that it is opened first. -/
def opensSecret (settings : CaptchaSettings) (sealed : Option (List UInt8)) : Bool :=
  settings.enabled && sealed.isNone && settings.hasSecret

/-! ## The call -/

/-- Where a call of `Update` stands: the next statement, and what it needs for it. -/
inductive CaptchaStage where
  | read
  | readSecret (settings : CaptchaSettings) (sealed : Option (List UInt8))
  | write (settings : CaptchaSettings) (sealed : Option (List UInt8))
  | reread
  | done (result : Except ServiceError CaptchaSettings)

/-- A call of `Update`, with the nonce that `Seal` will draw. -/
structure CaptchaEdit where
  input : CaptchaSettingsInput
  sealNonce : List UInt8
  stage : CaptchaStage := .read

/-- The settings are checked before they are written. -/
def checkedStage (settings : CaptchaSettings) (sealed : Option (List UInt8)) : CaptchaStage :=
  match validateCaptchaSettings settings with
  | .error e => .done (.error e)
  | .ok () => .write settings sealed

/-- The next statement of the call, at a time of the database. -/
def nextCaptchaStep (row : Option CaptchaRow) (edit : CaptchaEdit) (now : Instant) :
    Option (Option CaptchaRow × CaptchaEdit) :=
  match edit.stage with
  | .read =>
    match GetCaptchaSettings row with
    | .error e => some (row, { edit with stage := .done (.error e) })
    | .ok settings =>
      match editCaptcha cfg edit.input edit.sealNonce settings with
      | .error e => some (row, { edit with stage := .done (.error e) })
      | .ok (settings, sealed) =>
        if opensSecret settings sealed then
          some (row, { edit with stage := .readSecret settings sealed })
        else some (row, { edit with stage := checkedStage settings sealed })
  | .readSecret settings sealed =>
    match GetCaptchaSecret row with
    | .error _ => some (row, { edit with stage := .done (.error .captchaSecretsUnavailable) })
    | .ok secret =>
      match cfg.box.Open cfg.crypto secret with
      | none => some (row, { edit with stage := .done (.error .captchaSecretsUnavailable) })
      | some _ => some (row, { edit with stage := checkedStage settings sealed })
  | .write settings sealed =>
    match UpdateCaptchaSettings row settings sealed now with
    | (.error e, row) => some (row, { edit with stage := .done (.error e) })
    | (.ok (), row) => some (row, { edit with stage := .reread })
  | .reread => some (row, { edit with stage := .done (GetCaptchaSettings row) })
  | .done _ => none

/-- The calls of `Update` on one database. -/
def captchaEdits : Process (Option CaptchaRow) CaptchaEdit Instant where
  step := nextCaptchaStep cfg

/-! ## The call as an edit of one row -/

/-- What an edit makes of the row it reads. -/
def readCaptcha (asks : CaptchaSettingsInput × List UInt8) (row : CaptchaRow) :
    Except ServiceError (CaptchaSettings × Option (List UInt8)) :=
  editCaptcha cfg asks.1 asks.2 row.toSettings

/-- The row that an edit makes of one. -/
def WritesCaptcha (_asks : CaptchaSettingsInput × List UInt8)
    (seen : Except ServiceError (CaptchaSettings × Option (List UInt8)))
    (row row' : CaptchaRow) : Prop :=
  ∃ settings sealed now, seen = .ok (settings, sealed) ∧ row' = updatedCaptcha settings sealed now row

theorem sealCaptcha_ok {sealNonce : List UInt8} {value : Option GoString}
    {secret : Option (List UInt8)} (h : sealCaptcha cfg sealNonce value = .ok secret) :
    secret = if suppliesSecret value then
      some (cfg.crypto.gcmSeal sealNonce (value.getD [])) else none := by
  unfold sealCaptcha at h
  cases value with
  | none =>
    cases h
    rfl
  | some value =>
    dsimp only at h
    split_ifs at h with hempty hlong havailable
    · cases h
      rw [hempty]
      rfl
    · have hsupplies : suppliesSecret (some value) = true := by simpa [suppliesSecret] using hempty
      rw [hsupplies]
      unfold SecretBox.Seal at h
      split_ifs at h
      cases h
      rfl

/-- The columns of the row that an edit has written, the one that it has read being `seen`. -/
structure CaptchaWritten (asks : CaptchaSettingsInput × List UInt8) (seen row row' : CaptchaRow) :
    Prop where
  enabled : row'.enabled = asks.1.enabled.getD seen.enabled
  siteKey : row'.siteKey =
    nullableText ((asks.1.siteKey.map trimSpace).getD (seen.siteKey.getD []))
  expectedHostname : row'.expectedHostname =
    nullableText ((asks.1.expectedHostname.map (normalizeCaptchaHostname cfg)).getD
      (seen.expectedHostname.getD []))
  expectedAction : row'.expectedAction =
    nullableText ((asks.1.expectedAction.map trimSpace).getD (seen.expectedAction.getD []))
  secret : row'.secret = if suppliesSecret asks.1.secret then
    some (cfg.crypto.gcmSeal asks.2 (asks.1.secret.getD [])) else row.secret

theorem WritesCaptcha.written {asks : CaptchaSettingsInput × List UInt8}
    {seen row row' : CaptchaRow} (h : WritesCaptcha asks (readCaptcha cfg asks seen) row row') :
    CaptchaWritten cfg asks seen row row' := by
  obtain ⟨settings, sealed, now, hread, rfl⟩ := h
  unfold readCaptcha editCaptcha at hread
  split at hread
  · cases hread
  · rename_i secret hsecret
    cases hread
    refine ⟨rfl, rfl, rfl, rfl, ?_⟩
    show (if sealed.isSome then sealed else row.secret) = _
    rw [sealCaptcha_ok cfg hsecret]
    cases suppliesSecret asks.1.secret with
    | false => rfl
    | true => rfl

/-- How far a call of `Update` has come. -/
def CaptchaStage.phase :
    CaptchaStage → Phase (Except ServiceError (CaptchaSettings × Option (List UInt8)))
  | .read => .fresh
  | .readSecret settings sealed => .loaded (.ok (settings, sealed))
  | .write settings sealed => .ready (.ok (settings, sealed))
  | .reread => .written
  | .done (.ok _) => .written
  | .done (.error _) => .failed

theorem checkedStage_phase (settings : CaptchaSettings) (sealed : Option (List UInt8)) :
    (checkedStage settings sealed).phase = .failed ∨
      (checkedStage settings sealed).phase = .ready (.ok (settings, sealed)) := by
  unfold checkedStage
  split
  · exact .inl rfl
  · exact .inr rfl

theorem captchaEdits_step {row row' : Option CaptchaRow} {edit edit' : CaptchaEdit} {now : Instant}
    (h : (captchaEdits cfg).step row edit now = some (row', edit')) :
    (edit'.input, edit'.sealNonce) = (edit.input, edit.sealNonce) ∧
      EditStep (readCaptcha cfg) WritesCaptcha (edit.input, edit.sealNonce) edit.stage.phase row
        edit'.stage.phase row' := by
  have hstep : nextCaptchaStep cfg row edit now = some (row', edit') := h
  unfold nextCaptchaStep at hstep
  cases hstage : edit.stage with
  | read =>
    rw [hstage] at hstep
    cases row with
    | none =>
      cases hstep
      exact ⟨rfl, .fail _ _⟩
    | some row =>
      dsimp only [GetCaptchaSettings] at hstep
      cases hedit : editCaptcha cfg edit.input edit.sealNonce row.toSettings with
      | error e =>
        rw [hedit] at hstep
        cases hstep
        exact ⟨rfl, .fail _ _⟩
      | ok result =>
        obtain ⟨settings, sealed⟩ := result
        rw [hedit] at hstep
        dsimp only at hstep
        split_ifs at hstep
        · cases hstep
          exact ⟨rfl, .load row _ (.inl (congrArg Phase.loaded hedit.symm))⟩
        · cases hstep
          refine ⟨rfl, ?_⟩
          rcases checkedStage_phase settings sealed with hphase | hphase
          · dsimp only
            rw [hphase]
            exact .fail _ _
          · dsimp only
            rw [hphase]
            exact .load row _ (.inr (congrArg Phase.ready hedit.symm))
  | readSecret settings sealed =>
    rw [hstage] at hstep
    dsimp only at hstep
    split at hstep
    · cases hstep
      exact ⟨rfl, .fail _ _⟩
    · split at hstep
      · cases hstep
        exact ⟨rfl, .fail _ _⟩
      · cases hstep
        refine ⟨rfl, ?_⟩
        rcases checkedStage_phase settings sealed with hphase | hphase
        · dsimp only
          rw [hphase]
          exact .fail _ _
        · dsimp only
          rw [hphase]
          exact .check _ _
  | write settings sealed =>
    rw [hstage] at hstep
    dsimp only at hstep
    split at hstep
    · rename_i e row₁ hupdate
      cases hstep
      rw [UpdateCaptchaSettings_error hupdate]
      exact ⟨rfl, .fail _ _⟩
    · rename_i row₁ hupdate
      cases hstep
      obtain ⟨before, rfl, rfl⟩ := UpdateCaptchaSettings_ok hupdate
      exact ⟨rfl, .write _ before _ ⟨settings, sealed, now, rfl, rfl⟩⟩
  | reread =>
    rw [hstage] at hstep
    cases hstep
    refine ⟨rfl, ?_⟩
    cases GetCaptchaSettings row with
    | error e => exact .fail _ _
    | ok settings => exact .after _
  | done result =>
    rw [hstage] at hstep
    cases hstep

/-- A call of `Update` edits the row. -/
def captchaUpdates : EditProcess (captchaEdits cfg) (readCaptcha cfg) WritesCaptcha where
  row row := row
  asks edit := (edit.input, edit.sealNonce)
  phase edit := edit.stage.phase
  Sound _ := True
  step _ _ _ _ _ _ h := ⟨trivial, captchaEdits_step cfg h⟩

end

end Purels.Service
