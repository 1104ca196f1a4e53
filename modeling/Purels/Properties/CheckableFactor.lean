import Purels.Config.Secrets
import Purels.Properties.FailedSignIn

/-!
# Second factors that can be checked

Whether the process that demands a second factor is able to check one.

* `Opens`: the box opens what it seals.
* `Completable`: a claimed challenge with a valid code ends in a session.
* `challenge_checkable_iff`: a challenge means both, exactly when the configured key decodes
  wherever one is demanded.
-/

namespace Purels.Properties

open Go Security Store Service AuthService MfaStore Config

/-! ## What a challenge promises -/

/-- The box opens what it seals. -/
def Opens (cfg : AuthConfig) : Prop :=
  ∀ nonce plaintext, nonce.length = 12 →
    ∃ sealed, cfg.box.Seal cfg.crypto nonce plaintext = some sealed ∧
      cfg.box.Open cfg.crypto sealed = some plaintext

/-- The account's secret is sealed under the running key, and the code is its one-time code
or one of its unused recovery codes. -/
structure ValidCode (cfg : AuthConfig) (userID : Uuid) (code : GoString) (now : Instant)
    (s : MfaStore) (nonce : List UInt8) (plaintext : GoString) : Prop where
  drawn : nonce.length = 12
  secret : ∃ state, s.GetMFAState userID = .ok state ∧ state.Enrolled ∧
    state.secret = cfg.crypto.gcmSeal nonce plaintext
  answers : VerifyTOTP cfg.u cfg.crypto plaintext code now ∨
    (NormalizeRecoveryCode cfg.u code ≠ [] ∧ ∃ row ∈ s.recoveryCodes,
      spendable userID (cfg.crypto.sha256 (NormalizeRecoveryCode cfg.u code)) row)

/-- Whoever holds a claimable challenge and a valid code is signed in. -/
def Completable (cfg : AuthConfig) : Prop :=
  ∀ (s : MfaStore) (now : Instant) (challenge code : GoString) (client : SignIn)
    (row : ChallengeRow) (nonce : List UInt8) (plaintext : GoString),
    trimSpace challenge ≠ [] →
    s.challenges.find?
      (claimable (cfg.crypto.sha256 (trimSpace challenge)) mfaAttemptLimit now) = some row →
    ValidCode cfg row.userID code now s nonce plaintext →
    (∃ user, s.GetUserByID row.userID = .ok user) → SessionFits cfg client s →
    ∃ result, (VerifySecondFactor cfg challenge code client now s).1 = .ok result

section

variable {cfg : AuthConfig}

theorem not_opens (h : cfg.box.available = false) : ¬ Opens cfg := by
  intro hopens
  obtain ⟨sealed, hseal, -⟩ := hopens (List.replicate 12 0) [] rfl
  simp [SecretBox.Seal, h] at hseal

/-- A valid code is accepted by a process whose box opens what it seals. -/
theorem acceptedFor_valid (hbox : cfg.box.available)
    (hgcm : ∀ nonce plaintext, nonce.length = 12 →
      cfg.crypto.gcmOpen (cfg.crypto.gcmSeal nonce plaintext) = some plaintext)
    {s : MfaStore} {now : Instant} {challenge code : GoString} {row : ChallengeRow}
    {nonce : List UInt8} {plaintext : GoString} (hnil : trimSpace challenge ≠ [])
    (hrow : s.challenges.find?
      (claimable (cfg.crypto.sha256 (trimSpace challenge)) mfaAttemptLimit now) = some row)
    (hvalid : ValidCode cfg row.userID code now s nonce plaintext) :
    acceptedFor cfg challenge code now s = some row.userID := by
  obtain ⟨state, hstate, henrolled, hsecret⟩ := hvalid.secret
  have hopen : cfg.box.Open cfg.crypto state.secret = some plaintext := by
    rw [SecretBox.Open, if_pos hbox, hsecret]
    exact hgcm nonce plaintext hvalid.drawn
  have hcheck : (codeAccepted cfg row.userID state.secret code now
      (s.ClaimMFAChallenge (cfg.crypto.sha256 (trimSpace challenge)) mfaAttemptLimit now).2).1 =
        true := by
    unfold codeAccepted
    rw [hopen]
    by_cases htotp : VerifyTOTP cfg.u cfg.crypto plaintext code now
    · simp only [htotp, if_true]
    · obtain ⟨hcode, recovery, hmem, hspendable⟩ := hvalid.answers.resolve_left htotp
      simp only [htotp, hcode, if_false]
      refine List.find?_isSome.mpr ⟨recovery, hmem, hspendable⟩
  have hclaimed : ((s.ClaimMFAChallenge (cfg.crypto.sha256 (trimSpace challenge))
      mfaAttemptLimit now).2).GetMFAState row.userID = .ok state := hstate
  have hclaim : s.ClaimMFAChallenge (cfg.crypto.sha256 (trimSpace challenge)) mfaAttemptLimit now =
      (some row, (s.ClaimMFAChallenge (cfg.crypto.sha256 (trimSpace challenge))
        mfaAttemptLimit now).2) := Prod.ext hrow rfl
  unfold acceptedFor
  rw [if_neg hnil, hclaim]
  simp only [checkClaimed, hclaimed, henrolled]
  simpa using hcheck

/-- Such a process completes what it has demanded. -/
theorem completable (hbox : cfg.box.available)
    (hgcm : ∀ nonce plaintext, nonce.length = 12 →
      cfg.crypto.gcmOpen (cfg.crypto.gcmSeal nonce plaintext) = some plaintext) :
    Completable cfg := by
  intro s now challenge code client row nonce plaintext hnil hrow hvalid huser hfits
  have haccepted := acceptedFor_valid hbox hgcm hnil hrow hvalid
  obtain ⟨hash, row', after, -, hframe, hverify⟩ := acceptedFor_some cfg client haccepted
  have herror := retire_error cfg hash row.userID client now after
  have haccounts : after.toAccountStore = s.toAccountStore := hframe.accounts
  have hsessions : after.sessions = s.sessions := hframe.sessions
  rw [GetUserByID_congr haccounts, sessionFits_congr cfg client hsessions] at herror
  rw [hverify]
  cases hresult : (retireChallenge cfg hash row.userID client now after).1 with
  | ok result => exact ⟨result, rfl⟩
  | error e => exact absurd ⟨huser, hfits⟩ (herror.mp ⟨e, hresult⟩)

end

/-! ## When one is demanded -/

/-- The switch is on, a key is configured, the account is enrolled, and the token of the
challenge is a new one. -/
structure Demanded (cfg : AuthConfig) (totpEnabled : Bool) (userID : Uuid) (client : SignIn)
    (now : Instant) (s : MfaStore) : Prop where
  enabled : totpEnabled
  configured : cfg.secretsAvailable
  enrolled : ∃ state, s.GetMFAState userID = .ok state ∧ state.Enrolled
  fresh : ∀ row ∈ (s.sweepChallenges now).challenges,
    row.tokenHash ≠ cfg.crypto.sha256 client.challengeToken

theorem insertChallenge_ok_iff (s : MfaStore) (userID : Uuid) (tokenHash : List UInt8)
    (expiresAt : Instant) :
    (s.insertChallenge userID tokenHash expiresAt).1 = .ok () ↔
      (s.userRow userID).isSome ∧ ∀ row ∈ s.challenges, row.tokenHash ≠ tokenHash := by
  unfold insertChallenge
  constructor
  · intro h
    split_ifs at h with hrefused
    simpa [Option.isSome_iff_ne_none] using hrefused
  · intro h
    rw [if_neg]
    simpa [← Option.isSome_iff_ne_none] using h

theorem userRow_of_GetMFAState {s : MfaStore} {userID : Uuid} {state : MFAState}
    (h : s.GetMFAState userID = .ok state) : (s.userRow userID).isSome := by
  unfold GetMFAState at h
  cases hrow : s.userRow userID with
  | none =>
    rw [hrow] at h
    cases h
  | some user => rfl

theorem startSecondFactor_iff (cfg : AuthConfig) (totpEnabled : Bool) (userID : Uuid)
    (client : SignIn) (now : Instant) (s : MfaStore) :
    (∃ token, (startSecondFactor cfg totpEnabled userID client now s).1 = .ok (some token)) ↔
      Demanded cfg totpEnabled userID client now s := by
  have hinsert := insertChallenge_ok_iff (s.sweepChallenges now) userID
    (cfg.crypto.sha256 client.challengeToken) (now + cfg.challengeTTL)
  unfold startSecondFactor
  constructor
  · intro ⟨token, h⟩
    split_ifs at h with hoff
    · cases h
    have hon : totpEnabled = true ∧ cfg.secretsAvailable = true := by simpa using hoff
    cases hstate : s.GetMFAState userID with
    | error e =>
      rw [hstate] at h
      cases e <;> cases h
    | ok state =>
      rw [hstate] at h
      dsimp only at h
      split_ifs at h with hnot
      · cases h
      have henrolled : state.Enrolled := by simpa using hnot
      cases hresult : (s.sweepChallenges now).insertChallenge userID
        (cfg.crypto.sha256 client.challengeToken) (now + cfg.challengeTTL) with
      | mk result store =>
        rw [hresult] at h hinsert
        cases result with
        | error e => cases h
        | ok => exact ⟨hon.1, hon.2, ⟨state, hstate, henrolled⟩, (hinsert.mp rfl).2⟩
  · intro hdemanded
    obtain ⟨state, hstate, henrolled⟩ := hdemanded.enrolled
    have hok := hinsert.mpr ⟨userRow_of_GetMFAState hstate, hdemanded.fresh⟩
    cases hresult : (s.sweepChallenges now).insertChallenge userID
      (cfg.crypto.sha256 client.challengeToken) (now + cfg.challengeTTL) with
    | mk result store =>
      rw [hresult] at hok
      cases hok
      simp [hdemanded.enabled, hdemanded.configured, hstate, henrolled]

/-- **A second factor is demanded only when it can be checked, exactly when the configured key
decodes wherever one is demanded**: for every value of the two variables, of the switch and of
the account, a challenge is then created only by a process whose box opens what it seals, and
which signs in whoever answers with a valid code. -/
theorem challenge_checkable_iff (u : Unicode) (crypto : Crypto) (key legacy : GoString)
    (challengeTTL sessionTTL : Int)
    (hgcm : ∀ nonce plaintext, nonce.length = 12 →
      crypto.gcmOpen (crypto.gcmSeal nonce plaintext) = some plaintext)
    (totpEnabled : Bool) (userID : Uuid) (client : SignIn) (now : Instant) (s : MfaStore) :
    let cfg := authConfig u crypto key legacy challengeTTL sessionTTL
    (∀ token, (startSecondFactor cfg totpEnabled userID client now s).1 = .ok (some token) →
        Opens cfg ∧ Completable cfg) ↔
      (Demanded cfg totpEnabled userID client now s →
        (decodeKey (secretEncryptionKey key legacy)).isOk) := by
  intro cfg
  have havailable : cfg.box.available = (decodeKey (secretEncryptionKey key legacy)).isOk :=
    secretBox_available _
  rw [← havailable]
  constructor
  · intro h hdemanded
    obtain ⟨token, htoken⟩ :=
      (startSecondFactor_iff cfg totpEnabled userID client now s).mpr hdemanded
    by_contra hbox
    exact not_opens (Bool.eq_false_iff.mpr hbox) (h token htoken).1
  · intro h token htoken
    have hbox := h ((startSecondFactor_iff cfg totpEnabled userID client now s).mp ⟨token, htoken⟩)
    refine ⟨?_, completable hbox hgcm⟩
    intro nonce plaintext hnonce
    refine ⟨crypto.gcmSeal nonce plaintext, ?_, ?_⟩
    · rw [SecretBox.Seal, if_pos hbox]
      rfl
    · rw [SecretBox.Open, if_pos hbox]
      exact hgcm nonce plaintext hnonce

/-! ## Two keys -/

/-- A stand-in for the primitives in which a sealed secret stands between its nonce and an
empty tag. -/
def taggedCrypto : Crypto :=
  { plainCrypto with
    gcmSeal := fun nonce plaintext => nonce ++ plaintext ++ List.replicate 16 0
    gcmOpen := fun sealed =>
      if sealed.length < 28 then none else some ((sealed.drop 12).take (sealed.length - 28)) }

theorem taggedCrypto_opens (nonce : List UInt8) (plaintext : GoString) (h : nonce.length = 12) :
    taggedCrypto.gcmOpen (taggedCrypto.gcmSeal nonce plaintext) = some plaintext := by
  have hlength : (nonce ++ plaintext ++ List.replicate 16 (0 : UInt8)).length =
      plaintext.length + 28 := by
    rw [List.length_append, List.length_append, List.length_replicate, h]
    omega
  have hdrop : (nonce ++ plaintext ++ List.replicate 16 (0 : UInt8)).drop 12 =
      plaintext ++ List.replicate 16 0 := by
    rw [List.append_assoc, ← h, List.drop_left]
  show (if (nonce ++ plaintext ++ List.replicate 16 (0 : UInt8)).length < 28 then none
    else some (((nonce ++ plaintext ++ List.replicate 16 (0 : UInt8)).drop 12).take
      ((nonce ++ plaintext ++ List.replicate 16 (0 : UInt8)).length - 28))) = some plaintext
  rw [hlength, hdrop, if_neg (by omega), Nat.add_sub_cancel, List.take_left]

/-- The account of `ann`, its secret sealed. -/
def sealedStore : MfaStore :=
  { enrolledStore with
    users := [{ annRow with
      totpSecret := some (taggedCrypto.gcmSeal (List.replicate 12 0) (lit "AAAAAAAA")) }] }

/-- The client of a sign-in. -/
def plainClient : SignIn where
  userAgent := lit "agent"
  ipHash := []
  challengeToken := lit "token"
  sessionToken := lit "session"
  csrfToken := lit "csrf"

/-- The deployment with a key. -/
def keyed (key : GoString) : AuthConfig :=
  authConfig .ascii taggedCrypto key [] (300 * second) (3600 * second)

/-- A key of 32 bytes. -/
theorem challenge_checkable_keyed :
    let cfg := keyed (lit "0123456789abcdef0123456789abcdef")
    (startSecondFactor cfg true default plainClient 0 sealedStore).1 =
        .ok (some (lit "token")) ∧ Opens cfg ∧ Completable cfg := by
  refine ⟨by decide, ?_⟩
  refine (challenge_checkable_iff .ascii taggedCrypto (lit "0123456789abcdef0123456789abcdef") []
    (300 * second) (3600 * second) taggedCrypto_opens true default plainClient 0
    sealedStore).mpr ?_ (lit "token") (by decide)
  intro _
  decide +kernel

/-- A key of three letters demands a code and refuses the right one. -/
theorem malformed_key_demands :
    let cfg := keyed (lit "abc")
    let demanded := startSecondFactor cfg true default plainClient 0 sealedStore
    demanded.1 = .ok (some (lit "token")) ∧ ¬ Opens cfg ∧
      VerifyTOTP .ascii taggedCrypto (lit "AAAAAAAA") (lit "000000") 0 ∧
      (VerifySecondFactor cfg (lit "token") (lit "000000") plainClient 0 demanded.2).1 =
        .error .invalidSecondFactor ∧
      (VerifySecondFactor cfg (lit "token") (lit "code") plainClient 0 demanded.2).1 =
        .error .invalidSecondFactor := by
  refine ⟨by decide, not_opens (by decide +kernel), by decide, by decide,
    by decide⟩

end Purels.Properties
