import Purels.Properties.FactorKept
import Purels.Service.Auth

/-!
# Sign-ins that fail

What `Register` and `VerifySecondFactor` leave behind when they return an error.

* `SessionFits`: the row of the session can be inserted.
* `Registrable`, `acceptedFor`: what has gone well before the session.
* `failed_sign_in_iff`: nothing is left, exactly when the session can be inserted.
-/

namespace Purels.Properties

open Go Security Store Service AuthService MfaStore AccountStore

variable (cfg : AuthConfig)

/-! ## The session -/

/-- The user agent fits its column, and the token is a new one. -/
structure SessionFits (cfg : AuthConfig) (client : SignIn) (s : MfaStore) : Prop where
  text : storableText client.userAgent
  length : (runes client.userAgent).length ≤ 512
  fresh : ∀ session ∈ s.sessions, session.tokenHash ≠ cfg.crypto.sha256 client.sessionToken

section

variable (client : SignIn) (user : LoginUser) (now : Instant) {s : MfaStore}

theorem CreateSession_ok_iff (s : MfaStore) (session : SessionRow) :
    (s.CreateSession session).1 = .ok () ↔ (s.userRow session.userID).isSome ∧
      (∀ other ∈ s.sessions, other.tokenHash ≠ session.tokenHash) ∧
        storableText session.userAgent ∧ (runes session.userAgent).length ≤ 512 := by
  unfold MfaStore.CreateSession
  constructor
  · intro h
    split_ifs at h with hrefused
    simpa [and_assoc, Option.isSome_iff_ne_none] using hrefused
  · rintro ⟨huser, hfresh, htext, hlength⟩
    rw [if_neg]
    simpa [and_assoc, ← Option.isSome_iff_ne_none] using ⟨huser, hfresh, htext, hlength⟩

/-- A session is refused for its user agent or its token, once the account is there. -/
theorem createSession_error (huser : (s.userRow user.id).isSome) :
    (∃ e, (createSession cfg user client now s).1 = .error e) ↔ ¬ SessionFits cfg client s := by
  have hiff := CreateSession_ok_iff s (client.row cfg user.id now)
  have hfits : SessionFits cfg client s ↔
      (s.CreateSession (client.row cfg user.id now)).1 = .ok () := by
    rw [hiff]
    exact ⟨fun h => ⟨huser, h.fresh, h.text, h.length⟩, fun h => ⟨h.2.2.1, h.2.2.2, h.2.1⟩⟩
  rw [hfits]
  unfold createSession
  cases s.CreateSession (client.row cfg user.id now) with
  | mk result store => cases result <;> simp

/-- Only the sessions change. -/
theorem createSession_frame (s : MfaStore) :
    (createSession cfg user client now s).2.users = s.users ∧
      (createSession cfg user client now s).2.challenges = s.challenges ∧
      (createSession cfg user client now s).2.recoveryCodes = s.recoveryCodes := by
  unfold createSession MfaStore.CreateSession
  split_ifs
  · exact ⟨rfl, rfl, rfl⟩
  · exact ⟨rfl, rfl, rfl⟩

end

/-- The sessions are all that matters of the tables. -/
theorem sessionFits_congr (client : SignIn) {s t : MfaStore} (h : t.sessions = s.sessions) :
    SessionFits cfg client t ↔ SessionFits cfg client s := by
  constructor
  · intro hfits
    exact ⟨hfits.text, hfits.length, h ▸ hfits.fresh⟩
  · intro hfits
    exact ⟨hfits.text, hfits.length, h ▸ hfits.fresh⟩

/-! ## Registration -/

/-- The name, the password and the captcha pass, and the account can be created. -/
def Registrable (cfg : AuthConfig) (username password : GoString)
    (captcha : Except ServiceError Unit) (draw : RegisterDraw) (s : MfaStore) : Prop :=
  ∃ normalized accounts, NormalizeUsername cfg.u username = .ok normalized ∧
    ValidatePassword password = .ok () ∧ captcha = .ok () ∧
    s.toAccountStore.CreateUser
      { id := draw.id, username := normalized, passwordHash := draw.passwordHash } = .ok accounts

/-- A failed registration leaves the accounts alone. -/
def RegisterKeeps (s : MfaStore) (outcome : Except ServiceError LoginResult × MfaStore) : Prop :=
  ∀ e, outcome.1 = .error e → outcome.2.users = s.users

/-- The account has been created, and its session comes next. -/
theorem register_session (client : SignIn) (now : Instant) {s : MfaStore} {row : UserRow}
    {accounts : AccountStore} (hcreate : s.toAccountStore.CreateUser row = .ok accounts) :
    RegisterKeeps s
        (createSession cfg (loginUser row) client now { s with toAccountStore := accounts }) ↔
      SessionFits cfg client s := by
  have hrow := CreateUser_ok hcreate
  have huser : (userRow { s with toAccountStore := accounts } row.id).isSome := by
    rw [userRow, List.find?_isSome]
    refine ⟨row, ?_, beq_self_eq_true row.id⟩
    rw [hrow]
    exact List.mem_append_right _ (List.mem_singleton_self row)
  have herror := createSession_error cfg client (loginUser row) now huser
  have husers : (createSession cfg (loginUser row) client now
      { s with toAccountStore := accounts }).2.users ≠ s.users := by
    rw [(createSession_frame cfg client (loginUser row) now _).1, hrow]
    simp
  have hfits : SessionFits cfg client { s with toAccountStore := accounts } ↔
      SessionFits cfg client s := sessionFits_congr cfg client rfl
  rw [← hfits]
  constructor
  · intro hkeeps
    by_contra hnot
    obtain ⟨e, he⟩ := herror.mpr hnot
    exact husers (hkeeps e he)
  · intro h e he
    exact absurd h (herror.mp ⟨e, he⟩)

theorem register_keeps_iff (username password : GoString) (captcha : Except ServiceError Unit)
    (draw : RegisterDraw) (client : SignIn) (now : Instant) (s : MfaStore) :
    RegisterKeeps s (AuthService.Register cfg username password captcha draw client now s) ↔
      (Registrable cfg username password captcha draw s → SessionFits cfg client s) := by
  unfold AuthService.Register Registrable
  cases hname : NormalizeUsername cfg.u username with
  | error e => simp [RegisterKeeps]
  | ok normalized =>
    cases hpassword : ValidatePassword password with
    | error e => simp [RegisterKeeps]
    | ok =>
      cases hcaptcha : captcha with
      | error e => simp [RegisterKeeps]
      | ok =>
        cases hcreate : s.toAccountStore.CreateUser
          { id := draw.id, username := normalized, passwordHash := draw.passwordHash } with
        | error e => simp [RegisterKeeps, hcreate]
        | ok accounts =>
          simp only [Except.ok.injEq, true_and, exists_eq_left', hcreate, exists_and_left]
          rw [register_session cfg client now hcreate]
          simp

/-! ## The second factor -/

/-- The account whose challenge is claimed and whose code is accepted. -/
def acceptedFor (cfg : AuthConfig) (challenge code : GoString) (now : Instant) (s : MfaStore) :
    Option Uuid :=
  if trimSpace challenge = [] then none
  else
    match s.ClaimMFAChallenge (cfg.crypto.sha256 (trimSpace challenge)) mfaAttemptLimit now with
    | (none, _) => none
    | (some row, s) => if (checkClaimed cfg row.userID code now s).1 then some row.userID else none

/-- No challenge has been consumed and no recovery code spent. -/
def Untouched (before after : MfaStore) : Prop :=
  after.challenges.map (fun row => (row.id, row.consumedAt)) =
      before.challenges.map (fun row => (row.id, row.consumedAt)) ∧
    after.recoveryCodes = before.recoveryCodes

instance (before after : MfaStore) : Decidable (Untouched before after) :=
  inferInstanceAs (Decidable (_ ∧ _))

/-- A failed verification had no accepted code, or leaves challenges and codes alone. -/
def VerifyKeeps (accepted : Option Uuid) (s : MfaStore)
    (outcome : Except ServiceError LoginResult × MfaStore) : Prop :=
  ∀ e, outcome.1 = .error e → accepted = none ∨ Untouched s outcome.2

/-- The tables but the recovery codes are the same. -/
structure OnlyCodes (s t : MfaStore) : Prop where
  accounts : t.toAccountStore = s.toAccountStore
  sessions : t.sessions = s.sessions
  challenges : t.challenges = s.challenges

theorem onlyCodes_refl (s : MfaStore) : OnlyCodes s s := ⟨rfl, rfl, rfl⟩

theorem codeAccepted_frame (userID : Uuid) (sealed : List UInt8) (code : GoString)
    (now : Instant) (s : MfaStore) :
    OnlyCodes s (codeAccepted cfg userID sealed code now s).2 := by
  unfold codeAccepted
  cases cfg.box.Open cfg.crypto sealed with
  | none => exact onlyCodes_refl s
  | some plaintext =>
    dsimp only
    split_ifs
    · exact onlyCodes_refl s
    · exact onlyCodes_refl s
    · exact ⟨rfl, rfl, rfl⟩

/-- The code check touches the recovery codes and nothing else. -/
theorem checkClaimed_frame (userID : Uuid) (code : GoString) (now : Instant) (s : MfaStore) :
    OnlyCodes s (checkClaimed cfg userID code now s).2 := by
  unfold checkClaimed
  cases s.GetMFAState userID with
  | error e => exact onlyCodes_refl s
  | ok state =>
    dsimp only
    split_ifs
    · exact onlyCodes_refl s
    · exact codeAccepted_frame cfg userID state.secret code now s

/-- An account is read from the account tables. -/
theorem GetUserByID_congr {s t : MfaStore} (h : t.toAccountStore = s.toAccountStore)
    (userID : Uuid) : t.GetUserByID userID = s.GetUserByID userID := by
  unfold MfaStore.GetUserByID
  rw [h]

theorem userRow_of_GetUserByID {s : MfaStore} {userID : Uuid} {user : UserRow}
    (h : s.GetUserByID userID = .ok user) : (s.userRow user.id).isSome := by
  unfold MfaStore.GetUserByID at h
  split at h
  · cases h
  · rename_i hfind
    split_ifs at h
    cases h
    rw [userRow, List.find?_isSome]
    exact ⟨user, List.mem_of_find?_eq_some hfind, beq_self_eq_true user.id⟩

/-- What comes after an accepted code fails for the account or for the session. -/
theorem retire_error (hash : List UInt8) (userID : Uuid) (client : SignIn) (now : Instant)
    (s : MfaStore) :
    (∃ e, (retireChallenge cfg hash userID client now s).1 = .error e) ↔
      ¬ ((∃ user, s.GetUserByID userID = .ok user) ∧ SessionFits cfg client s) := by
  have hread := GetUserByID_congr (t := s.ConsumeMFAChallenge hash now) (s := s) rfl userID
  have hfits : SessionFits cfg client (s.ConsumeMFAChallenge hash now) ↔
      SessionFits cfg client s := sessionFits_congr cfg client rfl
  unfold retireChallenge
  simp only [hread]
  cases huser : s.GetUserByID userID with
  | error e => simp
  | ok user =>
    have hrow : ((s.ConsumeMFAChallenge hash now).userRow user.id).isSome :=
      userRow_of_GetUserByID huser
    simp only [createSession_error cfg client (loginUser user) now hrow, hfits]
    simp

/-- The challenge is consumed, whatever follows. -/
theorem retire_challenges (hash : List UInt8) (userID : Uuid) (client : SignIn) (now : Instant)
    (s : MfaStore) :
    (retireChallenge cfg hash userID client now s).2.challenges =
      (s.ConsumeMFAChallenge hash now).challenges := by
  unfold retireChallenge
  dsimp only
  cases (s.ConsumeMFAChallenge hash now).GetUserByID userID with
  | error e => rfl
  | ok user => exact (createSession_frame cfg client (loginUser user) now _).2.1

/-- A claimed challenge that is consumed does not look untouched. -/
theorem consumed_touched {s t : MfaStore} {hash : List UInt8} {now : Instant} {row : ChallengeRow}
    (hrow : s.challenges.find? (claimable hash mfaAttemptLimit now) = some row)
    (ht : t.challenges =
      ((s.ClaimMFAChallenge hash mfaAttemptLimit now).2.ConsumeMFAChallenge hash now).challenges) :
    ¬ Untouched s t := by
  rintro ⟨hchallenges, -⟩
  have hclaimable := List.find?_some hrow
  have hmem := List.mem_of_find?_eq_some hrow
  rw [ht, ConsumeMFAChallenge, ClaimMFAChallenge, List.map_map, List.map_map] at hchallenges
  have hsame := List.map_inj_left.mp hchallenges row hmem
  have hparts : row.tokenHash = hash ∧ row.consumedAt = none := by
    simp only [claimable, Bool.and_eq_true, beq_iff_eq, Option.isNone_iff_eq_none] at hclaimable
    exact ⟨hclaimable.1.1.1, hclaimable.1.2⟩
  simp [hclaimable, hparts.1, hparts.2] at hsame

/-- An accepted code is followed by the retirement of its challenge, over tables that differ
in what has been claimed and spent. -/
theorem acceptedFor_some {challenge code : GoString} (client : SignIn) {now : Instant}
    {s : MfaStore} {userID : Uuid} (h : acceptedFor cfg challenge code now s = some userID) :
    ∃ hash row after, s.challenges.find? (claimable hash mfaAttemptLimit now) = some row ∧
      OnlyCodes (s.ClaimMFAChallenge hash mfaAttemptLimit now).2 after ∧
      VerifySecondFactor cfg challenge code client now s =
        retireChallenge cfg hash userID client now after := by
  unfold acceptedFor at h
  split_ifs at h with hnil
  cases hclaim : s.ClaimMFAChallenge (cfg.crypto.sha256 (trimSpace challenge))
    mfaAttemptLimit now with
  | mk row claimed =>
    rw [hclaim] at h
    cases row with
    | none => cases h
    | some row =>
      dsimp only at h
      split_ifs at h with hcode
      cases h
      refine ⟨_, row, (checkClaimed cfg row.userID code now claimed).2,
        congrArg Prod.fst hclaim, ?_, ?_⟩
      · rw [hclaim]
        exact checkClaimed_frame cfg row.userID code now claimed
      · unfold VerifySecondFactor
        simp only [if_neg hnil, hclaim]
        unfold verifyClaimed
        cases hcheck : checkClaimed cfg row.userID code now claimed with
        | mk accepted after =>
          rw [hcheck] at hcode
          cases hcode
          rfl

theorem verify_keeps_iff (challenge code : GoString) (client : SignIn) (now : Instant)
    (s : MfaStore) :
    VerifyKeeps (acceptedFor cfg challenge code now s) s
        (VerifySecondFactor cfg challenge code client now s) ↔
      ∀ userID, acceptedFor cfg challenge code now s = some userID →
        (∃ user, s.GetUserByID userID = .ok user) ∧ SessionFits cfg client s := by
  cases haccepted : acceptedFor cfg challenge code now s with
  | none => simp [VerifyKeeps]
  | some userID =>
    obtain ⟨hash, row, after, hrow, hframe, hverify⟩ :=
      acceptedFor_some cfg client haccepted
    have haccounts : after.toAccountStore = s.toAccountStore := hframe.accounts
    have hsessions : after.sessions = s.sessions := hframe.sessions
    have herror := retire_error cfg hash userID client now after
    rw [GetUserByID_congr haccounts, sessionFits_congr cfg client hsessions] at herror
    rw [hverify]
    constructor
    · intro hkeeps userID' huserID
      cases huserID
      by_contra hnot
      obtain ⟨e, he⟩ := herror.mpr hnot
      rcases hkeeps e he with hnone | huntouched
      · cases hnone
      · refine consumed_touched hrow ?_ huntouched
        rw [retire_challenges, ConsumeMFAChallenge, ConsumeMFAChallenge, hframe.challenges]
    · intro h e he
      exact absurd (h userID rfl) (herror.mp ⟨e, he⟩)

/-- **A failed sign-in leaves nothing behind, exactly when what comes last cannot fail**: the
session of a registration that has gone well so far can be inserted, and so can that of an
accepted code, whose account is still enabled. -/
theorem failed_sign_in_iff (cfg : AuthConfig) (username password : GoString)
    (captcha : Except ServiceError Unit) (draw : RegisterDraw) (challenge code : GoString)
    (client : SignIn) (now : Instant) (s : MfaStore) :
    (RegisterKeeps s (AuthService.Register cfg username password captcha draw client now s) ↔
        (Registrable cfg username password captcha draw s → SessionFits cfg client s)) ∧
      (VerifyKeeps (acceptedFor cfg challenge code now s) s
          (VerifySecondFactor cfg challenge code client now s) ↔
        ∀ userID, acceptedFor cfg challenge code now s = some userID →
          (∃ user, s.GetUserByID userID = .ok user) ∧ SessionFits cfg client s) :=
  ⟨register_keeps_iff cfg username password captcha draw client now s,
    verify_keeps_iff cfg challenge code client now s⟩

/-- A client whose user agent is not UTF-8. -/
def latinClient : SignIn where
  userAgent := [0xFF]
  ipHash := []
  challengeToken := []
  sessionToken := lit "session"
  csrfToken := lit "csrf"

/-- The enrolled account, with a challenge to answer. -/
def challengedStore : MfaStore :=
  { enrolledStore with challenges := [⟨7, default, lit "token", 0, 100, none⟩] }

/-- It leaves an account behind, and a spent challenge with a spent recovery code. -/
theorem undecodable_agent_leaves :
    let draw : RegisterDraw := ⟨⟨List.replicate 32 1, by decide⟩, lit "hash"⟩
    let registered := AuthService.Register plainConfig (lit "bob") (lit "correct-horse") (.ok ())
      draw latinClient 0 challengedStore
    let verified := VerifySecondFactor plainConfig (lit "token") (lit "code") latinClient 0
      challengedStore
    registered.1 = .error .database ∧ registered.2.users ≠ challengedStore.users ∧
      verified.1 = .error .database ∧
      acceptedFor plainConfig (lit "token") (lit "code") 0 challengedStore = some default ∧
      ¬ Untouched challengedStore verified.2 ∧
      verified.2.recoveryCodes ≠ challengedStore.recoveryCodes := by
  decide

end Purels.Properties
