import Purels.Store.Accounts

/-!
# Second factors and sessions

The tables `mfa_challenges`, `mfa_recovery_codes` and `sessions` beside the
accounts, and the statements of the second factor.

* `MfaStore`: the tables.  Row identifiers count up.
* `GetMFAState`, `SetTOTPSecret`, `ConfirmTOTP`, `ClearTOTP`: the factor of an account.
  Each of the three writes is one transaction that holds the account's row.
* `ClaimMFAChallenge`, `ConsumeMFAChallenge`, `SpendRecoveryCode`: conditional updates.
* `GetUserByID`, `CreateSession`: the end of a sign-in.
-/

namespace Purels.Store

open Go

/-! ## Tables -/

/-- A row of `mfa_challenges`. -/
structure ChallengeRow where
  id : Nat
  userID : Uuid
  tokenHash : List UInt8
  attempts : Nat := 0
  expiresAt : Instant
  consumedAt : Option Instant := none
  deriving DecidableEq

/-- A row of `mfa_recovery_codes`. -/
structure RecoveryRow where
  id : Nat
  userID : Uuid
  codeHash : List UInt8
  usedAt : Option Instant := none
  deriving DecidableEq

/-- A row of `sessions`. -/
structure SessionRow where
  userID : Uuid
  tokenHash : List UInt8
  csrfHash : List UInt8
  expiresAt : Instant
  userAgent : GoString
  ipHash : List UInt8
  deriving DecidableEq

structure MfaStore extends AccountStore where
  challenges : List ChallengeRow := []
  recoveryCodes : List RecoveryRow := []
  sessions : List SessionRow := []
  nextID : Nat := 0
  deriving DecidableEq

/-- `domain.MFAState`; no secret is the empty one. -/
structure MFAState where
  secret : List UInt8
  confirmedAt : Option Instant
  deriving DecidableEq

/-- `Enrolled`. -/
def MFAState.Enrolled (state : MFAState) : Bool := state.confirmedAt.isSome && state.secret != []

namespace MfaStore

/-! ## The factor of an account -/

/-- The account's row. -/
def userRow (s : MfaStore) (userID : Uuid) : Option UserRow := s.users.find? (·.id == userID)

/-- `GetMFAState`. -/
def GetMFAState (s : MfaStore) (userID : Uuid) : Except ServiceError MFAState :=
  match s.userRow userID with
  | none => .error .notFound
  | some user => .ok ⟨user.totpSecret.getD [], user.totpConfirmedAt⟩

/-- `UPDATE admin_users SET … WHERE id=$1`. -/
def setFactor (s : MfaStore) (userID : Uuid) (set : UserRow → UserRow) : MfaStore :=
  { s with users := s.users.map fun user => if user.id == userID then set user else user }

/-- `DELETE FROM mfa_recovery_codes WHERE user_id=$1`. -/
def deleteCodes (s : MfaStore) (userID : Uuid) : MfaStore :=
  { s with recoveryCodes := s.recoveryCodes.filter (·.userID != userID) }

/-- The inserts of `ConfirmTOTP`. -/
def insertCodes (s : MfaStore) (userID : Uuid) (codeHashes : List (List UInt8)) : MfaStore :=
  { s with
    recoveryCodes := s.recoveryCodes ++
      codeHashes.mapIdx fun i codeHash => ⟨s.nextID + i, userID, codeHash, none⟩
    nextID := s.nextID + codeHashes.length }

/-- `SetTOTPSecret`. -/
def SetTOTPSecret (s : MfaStore) (userID : Uuid) (secret : List UInt8) :
    Except ServiceError Unit × MfaStore :=
  if (s.userRow userID).isNone then (.error .notFound, s)
  else
    (.ok (), (s.setFactor userID fun user =>
      { user with totpSecret := some secret, totpConfirmedAt := none }).deleteCodes userID)

/-- `ConfirmTOTP`.  The hash of a code is unique over all accounts. -/
def ConfirmTOTP (s : MfaStore) (userID : Uuid) (codeHashes : List (List UInt8)) (now : Instant) :
    Except ServiceError Unit × MfaStore :=
  if (s.userRow userID).all fun user => user.totpSecret.isNone then (.error .notFound, s)
  else
    let cleared := (s.setFactor userID fun user =>
      { user with totpConfirmedAt := some now }).deleteCodes userID
    if !codeHashes.Nodup || cleared.recoveryCodes.any (fun row => codeHashes.contains row.codeHash) then
      (.error .database, s)
    else (.ok (), cleared.insertCodes userID codeHashes)

/-- `ClearTOTP`. -/
def ClearTOTP (s : MfaStore) (userID : Uuid) : Except ServiceError Unit × MfaStore :=
  if (s.userRow userID).isNone then (.error .notFound, s)
  else
    (.ok (), (s.setFactor userID fun user =>
      { user with totpSecret := none, totpConfirmedAt := none }).deleteCodes userID)

/-- `CountRecoveryCodes`. -/
def CountRecoveryCodes (s : MfaStore) (userID : Uuid) : Nat :=
  s.recoveryCodes.countP fun row => row.userID == userID && row.usedAt.isNone

/-! ## Challenges -/

/-- The sweep of `CreateMFAChallenge`. -/
def sweepChallenges (s : MfaStore) (now : Instant) : MfaStore :=
  { s with challenges := s.challenges.filter fun row => !decide (row.expiresAt < now) }

/-- The insert of `CreateMFAChallenge`. -/
def insertChallenge (s : MfaStore) (userID : Uuid) (tokenHash : List UInt8) (expiresAt : Instant) :
    Except ServiceError Unit × MfaStore :=
  if (s.userRow userID).isNone || s.challenges.any (·.tokenHash == tokenHash) then
    (.error .database, s)
  else
    (.ok (), { s with
      challenges := s.challenges ++
        [⟨s.nextID, userID, tokenHash, 0, toMicroseconds expiresAt, none⟩]
      nextID := s.nextID + 1 })

/-- The challenge takes one more attempt now. -/
def claimable (tokenHash : List UInt8) (maxAttempts : Nat) (now : Instant) (row : ChallengeRow) :
    Bool :=
  row.tokenHash == tokenHash && decide (now < row.expiresAt) && row.consumedAt.isNone &&
    decide (row.attempts < maxAttempts)

/-- `ClaimMFAChallenge`: the row it returns is the claimed one. -/
def ClaimMFAChallenge (s : MfaStore) (tokenHash : List UInt8) (maxAttempts : Nat) (now : Instant) :
    Option ChallengeRow × MfaStore :=
  (s.challenges.find? (claimable tokenHash maxAttempts now), { s with
    challenges := s.challenges.map fun row =>
      if claimable tokenHash maxAttempts now row then { row with attempts := row.attempts + 1 }
      else row })

/-- `ConsumeMFAChallenge`.  The number of rows it touched is not looked at. -/
def ConsumeMFAChallenge (s : MfaStore) (tokenHash : List UInt8) (now : Instant) : MfaStore :=
  { s with
    challenges := s.challenges.map fun row =>
      if row.tokenHash == tokenHash && row.consumedAt.isNone then
        { row with consumedAt := some now }
      else row }

/-- The code is there and unused. -/
def spendable (userID : Uuid) (codeHash : List UInt8) (row : RecoveryRow) : Bool :=
  row.userID == userID && row.codeHash == codeHash && row.usedAt.isNone

/-- `SpendRecoveryCode`, with the row it touched. -/
def SpendRecoveryCode (s : MfaStore) (userID : Uuid) (codeHash : List UInt8) (now : Instant) :
    Option RecoveryRow × MfaStore :=
  (s.recoveryCodes.find? (spendable userID codeHash), { s with
    recoveryCodes := s.recoveryCodes.map fun row =>
      if spendable userID codeHash row then { row with usedAt := some now } else row })

/-! ## Sessions -/

/-- `GetUserByID`: an enabled account with its role. -/
def GetUserByID (s : MfaStore) (userID : Uuid) : Except ServiceError UserRow :=
  match s.users.find? fun user => user.id == userID && !user.disabled with
  | none => .error .notFound
  | some user => if s.roles.any (·.name == user.role) then .ok user else .error .notFound

/-- `CreateSession`. -/
def CreateSession (s : MfaStore) (session : SessionRow) : Except ServiceError Unit × MfaStore :=
  if (s.userRow session.userID).isNone || s.sessions.any (·.tokenHash == session.tokenHash) ||
      !storableText session.userAgent || 512 < (runes session.userAgent).length then
    (.error .database, s)
  else (.ok (), { s with sessions := s.sessions ++ [session] })

end MfaStore

end Purels.Store
