import Purels.Security.Accounts
import Purels.Service.AuthCalls

/-!
# The sign-in service, each call run alone

`AuthService`, over the same tables and statements as the concurrent calls.

* `createSession`, `startSecondFactor` and `CompleteLogin`.
* `codeAccepted` and `VerifySecondFactor`.
* `Register`.
* `verify_alone`: the process of `VerifySecondFactor` does what the call run alone does.
-/

namespace Purels.Service

open Go Security Store TwoFactorService

/-- The account a sign-in is of. -/
structure LoginUser where
  id : Uuid
  username : GoString
  role : GoString
  deriving DecidableEq

/-- `LoginResult`: a session, or the challenge to answer first. -/
structure LoginResult where
  user : Option LoginUser := none
  sessionToken : GoString := []
  csrfToken : GoString := []
  mfaChallenge : GoString := []
  deriving DecidableEq

/-- What a registration draws. -/
structure RegisterDraw where
  id : Uuid
  /-- `HashPassword` of the password, under the salt that is drawn. -/
  passwordHash : GoString

def loginUser (row : UserRow) : LoginUser := ⟨row.id, row.username, row.role⟩

namespace AuthService

variable (cfg : AuthConfig)

/-- `createSession`. -/
def createSession (user : LoginUser) (client : SignIn) (now : Instant) (s : MfaStore) :
    Except ServiceError LoginResult × MfaStore :=
  match s.CreateSession (client.row cfg user.id now) with
  | (.error e, s) => (.error e, s)
  | (.ok (), s) =>
    (.ok { user := some user, sessionToken := client.sessionToken, csrfToken := client.csrfToken },
      s)

/-- `startSecondFactor`: the token of the challenge it has created. -/
def startSecondFactor (totpEnabled : Bool) (userID : Uuid) (client : SignIn) (now : Instant)
    (s : MfaStore) : Except ServiceError (Option GoString) × MfaStore :=
  if !totpEnabled || !cfg.secretsAvailable then (.ok none, s)
  else
    match s.GetMFAState userID with
    | .error .notFound => (.ok none, s)
    | .error e => (.error e, s)
    | .ok state =>
      if !state.Enrolled then (.ok none, s)
      else
        match (s.sweepChallenges now).insertChallenge userID
          (cfg.crypto.sha256 client.challengeToken) (now + cfg.challengeTTL) with
        | (.error e, s) => (.error e, s)
        | (.ok (), s) => (.ok (some client.challengeToken), s)

/-- `CompleteLogin`. -/
def CompleteLogin (totpEnabled : Bool) (user : LoginUser) (client : SignIn) (now : Instant)
    (s : MfaStore) : Except ServiceError LoginResult × MfaStore :=
  match startSecondFactor cfg totpEnabled user.id client now s with
  | (.error e, s) => (.error e, s)
  | (.ok (some challenge), s) => (.ok { mfaChallenge := challenge }, s)
  | (.ok none, s) => createSession cfg user client now s

/-- `codeAccepted`. -/
def codeAccepted (userID : Uuid) (sealed : List UInt8) (code : GoString) (now : Instant)
    (s : MfaStore) : Bool × MfaStore :=
  match cfg.box.Open cfg.crypto sealed with
  | none => (false, s)
  | some plaintext =>
    if VerifyTOTP cfg.u cfg.crypto plaintext code now then (true, s)
    else if NormalizeRecoveryCode cfg.u code = [] then (false, s)
    else
      match s.SpendRecoveryCode userID (cfg.crypto.sha256 (NormalizeRecoveryCode cfg.u code)) now with
      | (spent, s) => (spent.isSome, s)

/-- What `VerifySecondFactor` finds out about the code, with a claimed challenge. -/
def checkClaimed (userID : Uuid) (code : GoString) (now : Instant) (s : MfaStore) :
    Bool × MfaStore :=
  match s.GetMFAState userID with
  | .error _ => (false, s)
  | .ok state =>
    if !state.Enrolled then (false, s) else codeAccepted cfg userID state.secret code now s

/-- `VerifySecondFactor` with an accepted code.  The challenge is retired before the account
is looked at. -/
def retireChallenge (hash : List UInt8) (userID : Uuid) (client : SignIn) (now : Instant)
    (s : MfaStore) : Except ServiceError LoginResult × MfaStore :=
  let s := s.ConsumeMFAChallenge hash now
  match s.GetUserByID userID with
  | .error _ => (.error .invalidSecondFactor, s)
  | .ok user => createSession cfg (loginUser user) client now s

/-- `VerifySecondFactor` with a claimed challenge. -/
def verifyClaimed (hash : List UInt8) (userID : Uuid) (code : GoString) (client : SignIn)
    (now : Instant) (s : MfaStore) : Except ServiceError LoginResult × MfaStore :=
  match checkClaimed cfg userID code now s with
  | (false, s) => (.error .invalidSecondFactor, s)
  | (true, s) => retireChallenge cfg hash userID client now s

/-- `VerifySecondFactor`. -/
def VerifySecondFactor (challenge code : GoString) (client : SignIn) (now : Instant)
    (s : MfaStore) : Except ServiceError LoginResult × MfaStore :=
  let challenge := trimSpace challenge
  if challenge = [] then (.error .invalidSecondFactor, s)
  else
    let hash := cfg.crypto.sha256 challenge
    match s.ClaimMFAChallenge hash mfaAttemptLimit now with
    | (none, s) => (.error .invalidSecondFactor, s)
    | (some row, s) => verifyClaimed cfg hash row.userID code client now s

/-- `Register`, with the outcome of the captcha check. -/
def Register (username password : GoString) (captcha : Except ServiceError Unit)
    (draw : RegisterDraw) (client : SignIn) (now : Instant) (s : MfaStore) :
    Except ServiceError LoginResult × MfaStore :=
  match NormalizeUsername cfg.u username with
  | .error e => (.error e, s)
  | .ok normalized =>
    match ValidatePassword password with
    | .error e => (.error e, s)
    | .ok () =>
      match captcha with
      | .error e => (.error e, s)
      | .ok () =>
        let row : UserRow :=
          { id := draw.id, username := normalized, passwordHash := draw.passwordHash }
        match s.toAccountStore.CreateUser row with
        | .error e => (.error e, s)
        | .ok accounts =>
          createSession cfg (loginUser row) client now { s with toAccountStore := accounts }

/-! ## Run alone -/

/-- A process takes up to `n` steps, with no other one about. -/
def alone (now : Instant) : ℕ → AuthWorld → AuthCall → AuthWorld × AuthCall
  | 0, w, call => (w, call)
  | n + 1, w, call =>
    match authStep cfg now w call with
    | none => (w, call)
    | some (w, call) => alone now n w call

/-- What a call that has returned says. -/
def resultOf : Except ServiceError LoginResult → AuthResult
  | .ok result => .session result.sessionToken
  | .error e => .failed e

variable {cfg}

theorem alone_done (now : Instant) (n : ℕ) (w : AuthWorld) (result : AuthResult) :
    alone cfg now n w (.done result) = (w, .done result) := by
  cases n <;> rfl

theorem alone_step {now : Instant} {n : ℕ} {w : AuthWorld} {call : AuthCall}
    {next : AuthWorld × AuthCall} (h : authStep cfg now w call = some next) :
    alone cfg now (n + 1) w call = alone cfg now n next.1 next.2 := by
  rw [alone, h]

/-- The process has returned what the call run alone returns, and left what it leaves. -/
def Returned (outcome : Except ServiceError LoginResult × MfaStore)
    (final : AuthWorld × AuthCall) : Prop :=
  final.1.store = outcome.2 ∧ final.2 = .done (resultOf outcome.1)

theorem returned_done {now : Instant} {n : ℕ} {w : AuthWorld} {result : AuthResult}
    {outcome : Except ServiceError LoginResult × MfaStore} (hstore : w.store = outcome.2)
    (hresult : result = resultOf outcome.1) :
    Returned outcome (alone cfg now n w (.done result)) := by
  rw [alone_done]
  exact ⟨hstore, by rw [hresult]⟩

theorem GetUserByID_id {s : MfaStore} {userID : Uuid} {user : UserRow}
    (h : s.GetUserByID userID = .ok user) : user.id = userID := by
  unfold MfaStore.GetUserByID at h
  split at h
  · cases h
  · rename_i row hfind
    split_ifs at h
    cases h
    have hrow := List.find?_some hfind
    rw [Bool.and_eq_true, beq_iff_eq] at hrow
    exact hrow.1

section

variable {hash : List UInt8} {userID : Uuid} {code : GoString} {client : SignIn} {now : Instant}

theorem session_alone (n k : ℕ) (w : AuthWorld) (user : LoginUser) (hid : user.id = userID) :
    Returned (createSession cfg user client now w.store)
      (alone cfg now (n + 1) w (.verifySession k userID client)) := by
  have hstep : authStep cfg now w (.verifySession k userID client) =
      some (verifySessionStep cfg k userID client now w) := rfl
  rw [alone_step hstep]
  unfold createSession verifySessionStep
  rw [hid]
  cases hcreate : w.store.CreateSession (client.row cfg userID now) with
  | mk result store =>
    cases result with
    | error e => exact returned_done rfl rfl
    | ok => exact returned_done rfl rfl

theorem retire_alone (n k : ℕ) (w : AuthWorld) :
    Returned (retireChallenge cfg hash userID client now w.store)
      (alone cfg now (n + 3) w (.consume k hash userID client)) := by
  have hconsume : ∃ w', w'.store = w.store.ConsumeMFAChallenge hash now ∧
      authStep cfg now w (.consume k hash userID client) =
        some (w', .readUser k userID client) := ⟨_, rfl, rfl⟩
  obtain ⟨w', hstore, hstep⟩ := hconsume
  rw [alone_step hstep, retireChallenge, ← hstore]
  cases huser : w'.store.GetUserByID userID with
  | error e =>
    have hread : authStep cfg now w' (.readUser k userID client) =
        some (w', .done (.failed .invalidSecondFactor)) := by
      simp only [authStep, huser]
    rw [alone_step hread]
    exact returned_done rfl rfl
  | ok user =>
    have hread : authStep cfg now w' (.readUser k userID client) =
        some (w', .verifySession k userID client) := by
      simp only [authStep, huser]
    rw [alone_step hread]
    exact session_alone n k w' (loginUser user) (GetUserByID_id huser)

/-- The code check, and what follows it. -/
theorem checkCode_alone (k : ℕ) (w : AuthWorld) :
    Returned (verifyClaimed cfg hash userID code client now w.store)
      (alone cfg now 5 w (.checkCode k hash userID code client)) := by
  have hstep : authStep cfg now w (.checkCode k hash userID code client) =
      some (checkCodeStep cfg k hash userID code client now w) := rfl
  rw [alone_step hstep]
  unfold verifyClaimed checkClaimed checkCodeStep
  cases w.store.GetMFAState userID with
  | error e => exact returned_done rfl rfl
  | ok state =>
    by_cases henrolled : state.Enrolled
    · simp only [henrolled, Bool.not_true, Bool.false_eq_true, if_false]
      unfold codeAccepted
      cases cfg.box.Open cfg.crypto state.secret with
      | none => exact returned_done rfl rfl
      | some plaintext =>
        dsimp only
        by_cases htotp : VerifyTOTP cfg.u cfg.crypto plaintext code now
        · rw [if_pos htotp, if_pos htotp]
          exact retire_alone 1 k _
        · rw [if_neg htotp, if_neg htotp]
          by_cases hnil : NormalizeRecoveryCode cfg.u code = []
          · rw [if_pos hnil, if_pos hnil]
            exact returned_done rfl rfl
          · rw [if_neg hnil, if_neg hnil]
            have hspend : ∀ w' : AuthWorld, authStep cfg now w' (.spend k hash userID
                (cfg.crypto.sha256 (NormalizeRecoveryCode cfg.u code)) client) =
                  some (spendStep k hash userID
                    (cfg.crypto.sha256 (NormalizeRecoveryCode cfg.u code)) client now w') :=
              fun _ => rfl
            rw [alone_step (hspend _)]
            unfold spendStep
            cases hspent : w.store.SpendRecoveryCode userID
              (cfg.crypto.sha256 (NormalizeRecoveryCode cfg.u code)) now with
            | mk row store =>
              have hnote : ∀ set, (w.note k set).store = w.store := fun _ => rfl
              rw [hnote, hspent]
              cases row with
              | none => exact returned_done rfl rfl
              | some row => exact retire_alone 0 k _
    · simp only [henrolled]
      exact returned_done rfl rfl

/-- **A call of `VerifySecondFactor` with no other process about is the function.** -/
theorem verify_alone (challenge : GoString) (w : AuthWorld) :
    Returned (VerifySecondFactor cfg challenge code client now w.store)
      (alone cfg now 6 w (AuthRequest.call cfg (.verify challenge code client))) := by
  unfold VerifySecondFactor AuthRequest.call
  by_cases hnil : trimSpace challenge = []
  · simp only [hnil, if_true]
    exact returned_done rfl rfl
  · simp only [if_neg hnil]
    have hstep : authStep cfg now w (.claim (cfg.crypto.sha256 (trimSpace challenge)) code client) =
        some (claimStep (cfg.crypto.sha256 (trimSpace challenge)) code client now w) := rfl
    rw [alone_step hstep, claimStep]
    cases hclaim : w.store.ClaimMFAChallenge (cfg.crypto.sha256 (trimSpace challenge))
      mfaAttemptLimit now with
    | mk row store =>
      cases row with
      | none => exact returned_done rfl rfl
      | some row => exact checkCode_alone _ _

end

end AuthService

end Purels.Service
