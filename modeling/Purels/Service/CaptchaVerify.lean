import Purels.Go.JsonText
import Purels.Service.Captcha

/-!
# The CAPTCHA of a registration

`TurnstileClient.Verify` and `CaptchaService.VerifyRegistration`, for any settings, any secret
and any answer of the provider.

* `HttpResponse` and `TurnstileResult`: what the provider answers.
* `Verify`: the request and the checks of its answer.
* `VerifyRegistration`: the policy.
* `Confirms`: the answers that let a registration pass.
* `verify_fails_closed`: a registration passes only with such an answer, in test mode, or without
  a CAPTCHA.
* `spaced_hostname`: how far a hostname may differ from the expected one.
-/

namespace Purels.Service

open Go Security Store Lib

/-! ## The provider -/

/-- `turnstileMaxTokenLength`. -/
abbrev turnstileMaxTokenLength : Nat := 2048

/-- `turnstileMaxResponseBody`. -/
abbrev turnstileMaxResponseBody : Nat := 65536

/-- An answer: its status, the bytes of its body, and whether reading them fails at their end. -/
structure HttpResponse where
  status : Int
  body : GoString
  broken : Bool := false

/-- The form of a request. -/
structure TurnstileForm where
  secret : GoString
  response : GoString
  remoteip : Option GoString
  deriving DecidableEq

/-- What is decoded of a body. -/
structure TurnstileResult where
  success : Bool := false
  hostname : GoString := []
  action : GoString := []
  deriving DecidableEq

inductive TurnstileField where
  | success
  | hostname
  | action
  deriving DecidableEq

/-- The struct tags. -/
def TurnstileField.tag : TurnstileField → GoString
  | .success => lit "success"
  | .hostname => lit "hostname"
  | .action => lit "action"

/-- A member into its field; `null` leaves it as it is. -/
def TurnstileResult.set (result : TurnstileResult) (field : TurnstileField) (value : Json) :
    Option TurnstileResult :=
  if value.isNull then some result
  else
    match field with
    | .success => value.toBool.map fun b => { result with success := b }
    | .hostname => value.toText.map fun s => { result with hostname := s }
    | .action => value.toText.map fun s => { result with action := s }

section

variable (u : Unicode)

/-- The members of an object, one after the other.  Unknown ones are skipped. -/
def decodeResult (result : TurnstileResult) : List (GoString × Json) → Option TurnstileResult
  | [] => some result
  | (key, value) :: rest =>
    match fieldOf u TurnstileField.tag [.success, .hostname, .action] key with
    | none => decodeResult result rest
    | some field => (result.set field value).bind fun result => decodeResult result rest

/-- `json.Unmarshal` of a body. -/
def unmarshalResult (body : GoString) : Option TurnstileResult :=
  match parseJson body with
  | some (.object members) => decodeResult u {} members
  | some .null => some {}
  | _ => none

/-! ## Verify -/

/-- `ErrTurnstileRejected` and `ErrTurnstileUnavailable`. -/
inductive TurnstileError where
  | rejected
  | unavailable
  deriving DecidableEq

/-- `Verify`.  No answer is a request that failed. -/
def Verify (endpoint : TurnstileForm → Option HttpResponse)
    (token secret remoteIP expectedHostname expectedAction : GoString) :
    Except TurnstileError Unit :=
  if trimSpace secret = [] then .error .unavailable
  else if trimSpace token = [] ∨ turnstileMaxTokenLength < token.length then .error .rejected
  else
    let form : TurnstileForm :=
      { secret := secret
        response := token
        remoteip := if trimSpace remoteIP = [] then none else some (trimSpace remoteIP) }
    match endpoint form with
    | none => .error .unavailable
    | some response =>
      if response.status < 200 ∨ 300 ≤ response.status then .error .unavailable
      else if response.broken ∧ response.body.length ≤ turnstileMaxResponseBody ∨
          turnstileMaxResponseBody < response.body.length then .error .unavailable
      else
        match unmarshalResult u response.body with
        | none => .error .unavailable
        | some result =>
          if !result.success then .error .rejected
          else if expectedHostname ≠ [] ∧
              ¬ equalFold u (trimSuffixDot (trimSpace result.hostname))
                (trimSuffixDot (trimSpace expectedHostname)) then .error .rejected
          else if expectedAction ≠ [] ∧ result.action ≠ expectedAction then .error .rejected
          else .ok ()

end

/-! ## VerifyRegistration -/

/-- What `VerifyRegistration` can return: an error of the store, `ErrCaptchaInvalid` or
`ErrCaptchaUnavailable`. -/
inductive CaptchaError where
  | store (e : ServiceError)
  | invalid
  | unavailable
  deriving DecidableEq

/-- The test mode of the configuration. -/
structure CaptchaTestMode where
  enabled : Bool
  token : GoString

section

variable (cfg : CaptchaConfig) (testMode : CaptchaTestMode)

/-- `VerifyRegistration`, for what the two reads of the store return. -/
def VerifyRegistration (settings : Except ServiceError CaptchaSettings)
    (sealed : Except ServiceError (List UInt8)) (endpoint : TurnstileForm → Option HttpResponse)
    (token remoteIP : GoString) : Except CaptchaError Unit :=
  match settings with
  | .error e => .error (.store e)
  | .ok settings =>
    if !settings.enabled then .ok ()
    else
      match validateCaptchaSettings settings with
      | .error _ => .error .unavailable
      | .ok () =>
        if trimSpace token = [] ∨ turnstileMaxTokenLength < token.length then .error .invalid
        else if testMode.enabled then
          if testMode.token ≠ [] ∧ token = testMode.token then .ok () else .error .invalid
        else
          match sealed with
          | .error _ => .error .unavailable
          | .ok sealed =>
            match cfg.box.Open cfg.crypto sealed with
            | none => .error .unavailable
            | some secret =>
              match Verify cfg.u endpoint token secret remoteIP settings.expectedHostname
                  settings.expectedAction with
              | .error .rejected => .error .invalid
              | .error .unavailable => .error .unavailable
              | .ok () => .ok ()

end

/-! ## What passes -/

section

variable (u : Unicode)

/-- An answer that confirms the token: a success of at most 64 KiB whose result is one, for the
expected hostname and the expected action.  `hostname` says which hostnames are the expected
one. -/
structure Confirms (hostname : GoString → GoString → Prop) (settings : CaptchaSettings)
    (response : HttpResponse) (result : TurnstileResult) : Prop where
  status : 200 ≤ response.status ∧ response.status < 300
  size : response.body.length ≤ turnstileMaxResponseBody ∧ ¬ response.broken
  decoded : unmarshalResult u response.body = some result
  success : result.success = true
  hostname : settings.expectedHostname ≠ [] → hostname result.hostname settings.expectedHostname
  action : settings.expectedAction ≠ [] → result.action = settings.expectedAction

/-- The hostname is the expected one up to case and one dot at the end. -/
def SameHostname (hostname expected : GoString) : Prop :=
  equalFold u (trimSuffixDot hostname) expected = true

/-- Spaces around it are dropped first. -/
def SameTrimmedHostname (hostname expected : GoString) : Prop :=
  SameHostname u (trimSpace hostname) expected

variable {u}

theorem Verify_ok {endpoint : TurnstileForm → Option HttpResponse}
    {token secret remoteIP expectedHostname expectedAction : GoString}
    (h : Verify u endpoint token secret remoteIP expectedHostname expectedAction = .ok ()) :
    trimSpace secret ≠ [] ∧ ∃ form response result, form.secret = secret ∧ form.response = token ∧
      endpoint form = some response ∧ (200 ≤ response.status ∧ response.status < 300) ∧
        (response.body.length ≤ turnstileMaxResponseBody ∧ ¬ response.broken) ∧
          unmarshalResult u response.body = some result ∧ result.success = true ∧
            (expectedHostname ≠ [] → equalFold u (trimSuffixDot (trimSpace result.hostname))
              (trimSuffixDot (trimSpace expectedHostname)) = true) ∧
              (expectedAction ≠ [] → result.action = expectedAction) := by
  unfold Verify at h
  by_cases hsecret : trimSpace secret = []
  · rw [if_pos hsecret] at h
    cases h
  by_cases htoken : trimSpace token = [] ∨ turnstileMaxTokenLength < token.length
  · rw [if_neg hsecret, if_pos htoken] at h
    cases h
  rw [if_neg hsecret, if_neg htoken] at h
  refine ⟨hsecret, ⟨secret, token, if trimSpace remoteIP = [] then none
    else some (trimSpace remoteIP)⟩, ?_⟩
  dsimp only at h ⊢
  cases hresponse : endpoint ⟨secret, token, if trimSpace remoteIP = [] then none
      else some (trimSpace remoteIP)⟩ with
  | none =>
    rw [hresponse] at h
    cases h
  | some response =>
    rw [hresponse] at h
    dsimp only at h
    split_ifs at h with hstatus hbody
    cases hresult : unmarshalResult u response.body with
    | none =>
      rw [hresult] at h
      cases h
    | some result =>
      rw [hresult] at h
      dsimp only at h
      split_ifs at h with hsuccess hhostname haction
      rw [not_or, not_lt, not_le] at hstatus
      refine ⟨response, result, rfl, rfl, rfl, hstatus, ?_, hresult, by simpa using hsuccess,
        ?_, ?_⟩
      · rw [not_or, not_and, not_lt] at hbody
        exact ⟨hbody.2, fun hbroken => hbody.1 hbroken hbody.2⟩
      · intro hset
        by_contra hother
        exact hhostname ⟨hset, hother⟩
      · intro hset
        by_contra hother
        exact haction ⟨hset, hother⟩

/-- A hostname that the settings may have is compared as it is. -/
theorem trimmed_of_pattern {expected : GoString}
    (h : captchaHostnamePattern (runeCodes expected)) :
    trimSuffixDot (trimSpace expected) = expected := by
  unfold captchaHostnamePattern edged at h
  rw [Bool.and_eq_true, Bool.and_eq_true, List.all_eq_true] at h
  obtain ⟨⟨-, hlast⟩, hall⟩ := h
  have hrange : ∀ c ∈ runeCodes expected, 0x20 < c ∧ c < 0x7F := by
    intro c hc
    have hinner := hall c hc
    simp only [isLowerCode, isDigitCode, Bool.or_eq_true, decide_eq_true_eq, beq_iff_eq] at hinner
    omega
  obtain ⟨-, hcodes⟩ := ascii_of_runeCodes fun c hc => Nat.lt_succ_of_lt (hrange c hc).2
  have htrim : trimSpace expected = expected := by
    apply trimSpace_printable
    intro b hb
    apply hrange
    rw [hcodes]
    exact List.mem_map_of_mem hb
  rw [htrim, trimSuffixDot, if_neg]
  intro hdot
  rw [hcodes, List.getLast?_map, hdot] at hlast
  exact absurd hlast (by decide)

theorem hostname_of_valid {settings : CaptchaSettings}
    (h : validateCaptchaSettings settings = .ok ()) (hset : settings.expectedHostname ≠ []) :
    captchaHostnamePattern (runeCodes settings.expectedHostname) := by
  unfold validateCaptchaSettings at h
  split_ifs at h with _ _ _ hpattern
  by_contra hno
  exact hpattern ⟨hset, hno⟩

end

/-- A registration may pass: there is no CAPTCHA, the test token is given in test mode, or the
settings are valid, the secret opens to one that is not blank, and the provider confirms the token
for it. -/
def MayPass (hostname : GoString → GoString → Prop) (cfg : CaptchaConfig)
    (testMode : CaptchaTestMode) (settings : Except ServiceError CaptchaSettings)
    (sealed : Except ServiceError (List UInt8)) (endpoint : TurnstileForm → Option HttpResponse)
    (token : GoString) : Prop :=
  ∃ read, settings = .ok read ∧
    (read.enabled = false ∨
      (testMode.enabled = true ∧ testMode.token ≠ [] ∧ token = testMode.token) ∨
        validateCaptchaSettings read = .ok () ∧ ∃ stored secret form response result,
          sealed = .ok stored ∧ cfg.box.Open cfg.crypto stored = some secret ∧
            trimSpace secret ≠ [] ∧ form.secret = secret ∧ form.response = token ∧
              endpoint form = some response ∧ Confirms cfg.u hostname read response result)

/-- A registration passes only when it may, for an answer whose hostname is the expected one up to
spaces around it, case and one dot at its end. -/
theorem verify_fails_closed (cfg : CaptchaConfig) (testMode : CaptchaTestMode)
    (settings : Except ServiceError CaptchaSettings) (sealed : Except ServiceError (List UInt8))
    (endpoint : TurnstileForm → Option HttpResponse) (token remoteIP : GoString)
    (h : VerifyRegistration cfg testMode settings sealed endpoint token remoteIP = .ok ()) :
    MayPass (SameTrimmedHostname cfg.u) cfg testMode settings sealed endpoint token := by
  unfold VerifyRegistration at h
  cases settings with
  | error e => cases h
  | ok read =>
    refine ⟨read, rfl, ?_⟩
    dsimp only at h
    cases henabled : read.enabled with
    | false => exact .inl rfl
    | true =>
      right
      rw [henabled] at h
      cases hvalid : validateCaptchaSettings read with
      | error e =>
        rw [hvalid] at h
        cases h
      | ok =>
        rw [hvalid] at h
        dsimp only at h
        rw [if_neg (show ¬ (!true) = true by decide)] at h
        split_ifs at h with htoken htest hsame
        · exact .inl ⟨htest, hsame⟩
        right
        cases sealed with
        | error e => cases h
        | ok stored =>
          dsimp only at h
          cases hopen : cfg.box.Open cfg.crypto stored with
          | none =>
            rw [hopen] at h
            cases h
          | some secret =>
            rw [hopen] at h
            dsimp only at h
            cases hverify : Verify cfg.u endpoint token secret remoteIP read.expectedHostname
                read.expectedAction with
            | error e => cases e <;> rw [hverify] at h <;> cases h
            | ok =>
              obtain ⟨hblank, form, response, result, hsecret, hresponse, hanswer, hstatus, hsize,
                hdecoded, hsuccess, hhostname, haction⟩ := Verify_ok hverify
              refine ⟨rfl, stored, secret, form, response, result, rfl, hopen, hblank, hsecret,
                hresponse, hanswer, hstatus, hsize, hdecoded, hsuccess, ?_, haction⟩
              intro hset
              have heq := hhostname hset
              rw [trimmed_of_pattern (hostname_of_valid hvalid hset)] at heq
              exact heq

/-! ## Spaces around the hostname -/

/-- A box whose ciphertexts are the texts themselves. -/
def plainBox : CaptchaConfig where
  u := .ascii
  crypto := {
    hmacSHA1 := fun _ _ => []
    sha256 := fun _ => []
    checkPassword := fun _ _ => false
    gcmSeal := fun _ text => text
    gcmOpen := some }
  box := ⟨true⟩
  secretsAvailable := true

/-- The settings of a console at one hostname. -/
def oneHostname : CaptchaSettings where
  enabled := true
  siteKey := lit "0x4AAA"
  hasSecret := true
  expectedHostname := lit "example.org"
  expectedAction := []
  updatedAt := 0

/-- The provider takes every token, and answers with a hostname. -/
def answersHostname (body : String) (_ : TurnstileForm) : Option HttpResponse :=
  some { status := 200, body := lit body }

/-- A registration that the provider confirms. -/
theorem verify_fails_closed_confirmed :
    MayPass (SameTrimmedHostname .ascii) plainBox ⟨false, []⟩ (.ok oneHostname) (.ok (lit "secret"))
      (answersHostname "\x7b\"success\":true,\"hostname\":\"Example.org.\"\x7d")
      (lit "token") :=
  verify_fails_closed plainBox ⟨false, []⟩ (.ok oneHostname) (.ok (lit "secret"))
    (answersHostname "\x7b\"success\":true,\"hostname\":\"Example.org.\"\x7d")
    (lit "token") [] (by decide)

/-- A hostname with a space before it passes, though it differs from the expected one in more than
case and a dot. -/
theorem spaced_hostname :
    VerifyRegistration plainBox ⟨false, []⟩ (.ok oneHostname) (.ok (lit "secret"))
        (answersHostname "\x7b\"success\":true,\"hostname\":\" example.org\"\x7d")
        (lit "token") [] = .ok () ∧
      ¬ MayPass (SameHostname .ascii) plainBox ⟨false, []⟩ (.ok oneHostname) (.ok (lit "secret"))
        (answersHostname "\x7b\"success\":true,\"hostname\":\" example.org\"\x7d")
        (lit "token") := by
  refine ⟨by decide, ?_⟩
  rintro ⟨read, hread, hcase⟩
  cases hread
  rcases hcase with hoff | ⟨htest, -⟩ | ⟨-, _, _, _, response, result, -, -, -, -, -, hanswer, hok⟩
  · cases hoff
  · cases htest
  · cases hanswer
    have hresult : unmarshalResult .ascii
        (lit "\x7b\"success\":true,\"hostname\":\" example.org\"\x7d") =
          some { success := true, hostname := lit " example.org" } := by decide
    have hhostname := hok.hostname (by decide)
    have hsame := hresult.symm.trans hok.decoded
    cases hsame
    exact absurd hhostname (by unfold SameHostname; decide)

end Purels.Service
