import Purels.Lib.Machine
import Purels.Service.TwoFactor

/-!
# What a session can do to its account's second factor

Sequences of the self-service requests of one account.

* `MfaRequest`, `selfService`: the requests as a machine.
* `Refused`: an enrolment that is refused, or a confirmation whose code does not fit.
* `factor_kept`, the run theorem, and `factor_replaced`, an enrolment that takes the
  factor off an enrolled account.
-/

namespace Purels.Properties

open Go Security Store Service TwoFactorService Lib

/-! ## Requests -/

/-- A self-service request of the second factor. -/
inductive MfaRequest where
  | status
  | enroll (draw : EnrollDraw)
  | confirm (code : GoString) (draws : Fin recoveryCodeCount → Fin 10 → UInt8)
  | disable (password code : GoString)

/-- A request with the master switch and the clock as it finds them. -/
structure MfaCall where
  totpEnabled : Bool
  now : Instant
  request : MfaRequest

section

variable (cfg : AuthConfig) (user : User)

/-- What a request of the account's session, or of its tokens, leaves. -/
def MfaCall.run (call : MfaCall) (s : MfaStore) : MfaStore :=
  match call.request with
  | .status => s
  | .enroll draw => (Enroll cfg call.totpEnabled user.id draw s).2
  | .confirm code draws => (Confirm cfg call.totpEnabled user.id code draws call.now s).2
  | .disable password code =>
    (Disable cfg call.totpEnabled user.id user.username password code call.now s).2

def selfService : Machine MfaStore MfaCall where
  step s call := some (call.run cfg user s)

/-- The account has a confirmed second factor. -/
def EnrolledIn (s : MfaStore) : Prop := ∃ state, s.GetMFAState user.id = .ok state ∧ state.Enrolled

/-- The factor is the same one, and the unused recovery codes are there. -/
structure FactorKept (s t : MfaStore) : Prop where
  state : t.GetMFAState user.id = s.GetMFAState user.id
  codes : ∀ row ∈ s.recoveryCodes, row.userID = user.id → row.usedAt = none →
    row ∈ t.recoveryCodes

/-- The code is valid for the stored secret. -/
def CodeFits (s : MfaStore) (code : GoString) (now : Instant) : Prop :=
  ∃ state, s.GetMFAState user.id = .ok state ∧ verifySecret cfg state.secret code now

/-- A disabling does not carry both the password and a code that fits. -/
def Unproven (s : MfaStore) (call : MfaCall) : Prop :=
  match call.request with
  | .disable password code =>
    ¬ (passwordAccepted cfg user.username password s ∧ CodeFits cfg user s code call.now)
  | _ => True

/-- The deployment cannot enrol, or a confirmation's code does not fit. -/
def Refused (s : MfaStore) (call : MfaCall) : Prop :=
  match call.request with
  | .enroll _ => ¬ (available cfg call.totpEnabled ∧ cfg.box.available)
  | .confirm code _ => ¬ (available cfg call.totpEnabled ∧ CodeFits cfg user s code call.now)
  | _ => True

variable {cfg user}

/-! ## Requests that change nothing -/

theorem Enroll_refused {totpEnabled : Bool} {userID : Uuid} {draw : EnrollDraw} {s : MfaStore}
    (h : ¬ (available cfg totpEnabled ∧ cfg.box.available)) :
    (Enroll cfg totpEnabled userID draw s).2 = s := by
  have hfail : ∃ e, newSecret cfg totpEnabled draw = .error e := by
    unfold newSecret
    by_cases havailable : available cfg totpEnabled
    · have hbox : cfg.box.available = false := by simpa [havailable] using h
      simp [havailable, SecretBox.Seal, hbox]
    · simp [havailable]
  obtain ⟨e, he⟩ := hfail
  simp [Enroll, he]

theorem Confirm_refused {totpEnabled : Bool} {code : GoString}
    {draws : Fin recoveryCodeCount → Fin 10 → UInt8} {now : Instant} {s : MfaStore}
    (h : ¬ (available cfg totpEnabled ∧ CodeFits cfg user s code now)) :
    (Confirm cfg totpEnabled user.id code draws now s).2 = s := by
  have hfail : ∃ e, confirmable cfg totpEnabled user.id code now s = .error e := by
    unfold confirmable
    by_cases havailable : available cfg totpEnabled
    · have hcode : ¬ CodeFits cfg user s code now := fun hfits => h ⟨havailable, hfits⟩
      simp only [havailable, Bool.not_true]
      cases hstate : s.GetMFAState user.id with
      | error e => exact ⟨e, rfl⟩
      | ok state =>
        have hverify : verifySecret cfg state.secret code now = false := by
          by_contra hverify
          exact hcode ⟨state, hstate, by simpa using hverify⟩
        by_cases hnone : state.secret = []
        · exact ⟨.noEnrolment, by simp [hnone]⟩
        · exact ⟨.invalidSecondFactor, by simp [hnone, hverify]⟩
    · exact ⟨.twoFactorUnavailable, by simp [havailable]⟩
  obtain ⟨e, he⟩ := hfail
  simp [Confirm, he]

theorem Disable_unproven {totpEnabled : Bool} {password code : GoString} {now : Instant}
    {s : MfaStore}
    (h : ¬ (passwordAccepted cfg user.username password s ∧ CodeFits cfg user s code now)) :
    (Disable cfg totpEnabled user.id user.username password code now s).2 = s := by
  unfold Disable
  split_ifs with havailable hpassword
  · rfl
  · rfl
  · have hcode : ¬ CodeFits cfg user s code now := fun hfits => h ⟨by simpa using hpassword, hfits⟩
    have hfail : ∃ e, disableError cfg user.id code now s = some e := by
      unfold disableError
      cases hstate : s.GetMFAState user.id with
      | error e => exact ⟨e, rfl⟩
      | ok state =>
        have hverify : verifySecret cfg state.secret code now = false := by
          by_contra hverify
          exact hcode ⟨state, hstate, by simpa using hverify⟩
        by_cases henrolled : state.Enrolled
        · exact ⟨.invalidSecondFactor, by simp [henrolled, hverify]⟩
        · exact ⟨.noEnrolment, by simp [henrolled]⟩
    obtain ⟨e, he⟩ := hfail
    simp [he]

/-- One request. -/
theorem run_refused {call : MfaCall} {s : MfaStore} (hunproven : Unproven cfg user s call)
    (hrefused : Refused cfg user s call) : call.run cfg user s = s := by
  unfold MfaCall.run
  unfold Unproven at hunproven
  unfold Refused at hrefused
  cases hrequest : call.request with
  | status => rfl
  | enroll draw =>
    rw [hrequest] at hrefused
    exact Enroll_refused hrefused
  | confirm code draws =>
    rw [hrequest] at hrefused
    exact Confirm_refused hrefused
  | disable password code =>
    rw [hrequest] at hunproven
    exact Disable_unproven hunproven

/-- A session does not remove the second factor.  In a run without a proven disabling,
in which every enrolment is refused and no confirmation's code fits, an enrolled
account keeps its secret and its unused recovery codes. -/
theorem factor_kept {calls : List MfaCall} {s t : MfaStore} (henrolled : EnrolledIn user s)
    (hunproven : (selfService cfg user).Along (Unproven cfg user) s calls)
    (hrefused : (selfService cfg user).Along (Refused cfg user) s calls)
    (hrun : (selfService cfg user).run s calls = some t) :
    EnrolledIn user t ∧ FactorKept user s t := by
  have hsame : t = s := by
    refine Machine.run_invariant_along (selfService cfg user) (I := fun v => v = s)
      (C := fun v call => Unproven cfg user v call ∧ Refused cfg user v call) ?_ rfl
      (Machine.Along.and _ hunproven hrefused) hrun
    rintro v call w rfl ⟨hcallUnproven, hcallRefused⟩ hstep
    obtain rfl := Option.some.inj hstep
    exact run_refused hcallUnproven hcallRefused
  subst hsame
  exact ⟨henrolled, rfl, fun row hrow _ _ => hrow⟩

end

/-! ## An enrolled account -/

/-- A stand-in for the primitives: a seal puts the nonce first, and every digest is zero. -/
def plainCrypto : Crypto where
  hmacSHA1 _ _ := List.replicate 20 0
  sha256 s := s
  checkPassword password hash := password == hash
  gcmSeal nonce plaintext := nonce ++ plaintext
  gcmOpen := fun text => some text

def plainConfig : AuthConfig where
  u := .ascii
  crypto := plainCrypto
  box := ⟨true⟩
  secretsAvailable := true
  challengeTTL := 300 * second
  sessionTTL := 3600 * second

/-- The account of `ann`, with a confirmed secret. -/
def annRow : UserRow where
  id := default
  username := lit "ann"
  passwordHash := lit "pw"
  totpSecret := some (lit "AAAAAAAA")
  totpConfirmedAt := some 0

/-- It has one recovery code. -/
def enrolledStore : MfaStore where
  users := [annRow]
  roles := [⟨lit "user", [], false⟩]
  recoveryCodes := [⟨0, default, lit "code", none⟩]
  nextID := 1

def ann : User := { id := default, username := lit "ann" }

theorem ann_enrolled : EnrolledIn ann enrolledStore := ⟨⟨lit "AAAAAAAA", some 0⟩, rfl, by decide⟩

/-- A confirmation with a wrong code. -/
def wrongConfirm : MfaCall := ⟨true, 0, .confirm (lit "123456") fun _ _ => 0⟩

theorem factor_kept_wrongConfirm :
    ∃ t, (selfService plainConfig ann).run enrolledStore [wrongConfirm] = some t ∧
      EnrolledIn ann t ∧ FactorKept ann enrolledStore t := by
  have hstored : enrolledStore.GetMFAState ann.id = .ok ⟨lit "AAAAAAAA", some 0⟩ := rfl
  have hwrong : Refused plainConfig ann enrolledStore wrongConfirm := by
    rintro ⟨-, state, hstate, hverify⟩
    rw [hstored] at hstate
    obtain rfl := Except.ok.inj hstate
    exact absurd hverify (by decide)
  have hunproven : (selfService plainConfig ann).Along (Unproven plainConfig ann) enrolledStore
      [wrongConfirm] := ⟨trivial, fun _ _ => trivial⟩
  have hrefused : (selfService plainConfig ann).Along (Refused plainConfig ann) enrolledStore
      [wrongConfirm] := ⟨hwrong, fun _ _ => trivial⟩
  exact ⟨_, rfl, factor_kept ann_enrolled hunproven hrefused rfl⟩

/-- An enrolment takes the confirmation off the account and deletes its codes. -/
theorem factor_replaced :
    ¬ ∀ (calls : List MfaCall) (s t : MfaStore), EnrolledIn ann s →
      (selfService plainConfig ann).Along (Unproven plainConfig ann) s calls →
      (selfService plainConfig ann).run s calls = some t →
      EnrolledIn ann t ∧ FactorKept ann s t := by
  intro hclaim
  have hkept := hclaim [⟨true, 0, .enroll ⟨fun _ => 0, [], none⟩⟩] enrolledStore _ ann_enrolled
    ⟨trivial, fun _ _ => trivial⟩ rfl
  have hcode := hkept.2.codes ⟨0, default, lit "code", none⟩ (by decide) rfl rfl
  exact absurd hcode (by decide)

end Purels.Properties
