import Purels.Lib.Tables
import Purels.Service.AuthCalls

/-!
# What a step of a sign-in changes

The effect of one statement on the challenges, on the recovery codes and on the
history of claims, said once for every result about concurrent sign-ins.

* `AuthEffect` and `authStep_effect`: the effects a step can have.
* `authCalls_effect`: the same for a step of a process.
-/

namespace Purels.Properties

open Go Security Store Service TwoFactorService Lib

/-! ## Effects -/

/-- Nothing changes of the challenges, the recovery codes and the history. -/
structure Quiet (w w' : AuthWorld) : Prop where
  challenges : w'.store.challenges = w.store.challenges
  recoveryCodes : w'.store.recoveryCodes = w.store.recoveryCodes
  nextID : w'.store.nextID = w.store.nextID
  history : w'.history = w.history

/-- What a step of `call` can leave, and where it leaves the call. -/
inductive AuthEffect (now : Instant) (w : AuthWorld) (call : AuthCall) : AuthWorld → AuthCall → Prop
  /-- A read, a refused statement, or a write on other tables. -/
  | quiet {w' : AuthWorld} {call' : AuthCall} (hquiet : Quiet w w')
      (hentry : call'.entry = none ∨ call'.entry = call.entry)
      (hretired : call'.retired = none ∨ call'.retired = call.retired) : AuthEffect now w call w' call'
  | swept {call' : AuthCall} (hentry : call'.entry = none) (hretired : call'.retired = none) :
      AuthEffect now w call { w with store := w.store.sweepChallenges now } call'
  | inserted {store : MfaStore} {call' : AuthCall} (row : ChallengeRow)
      (hid : row.id = w.store.nextID) (hattempts : row.attempts = 0)
      (hchallenges : store.challenges = w.store.challenges ++ [row])
      (hcodes : store.recoveryCodes = w.store.recoveryCodes)
      (hnext : store.nextID = w.store.nextID + 1)
      (hentry : call'.entry = none) (hretired : call'.retired = none) :
      AuthEffect now w call { w with store } call'
  | claimed {hash : List UInt8} {code : GoString} {client : SignIn} (row : ChallengeRow)
      (hrow : w.store.challenges.find? (MfaStore.claimable hash mfaAttemptLimit now) = some row) :
      AuthEffect now w call
        { store := (w.store.ClaimMFAChallenge hash mfaAttemptLimit now).2
          history := w.history ++ [⟨row.id, now, false, none, false, false⟩] }
        (.checkCode w.history.length hash row.userID code client)
  | checked {call' : AuthCall} {k : Nat} (hcall : call.entry = some k)
      (hentry : call'.entry = none ∨ call'.entry = some k) (hretired : call'.retired = none) :
      AuthEffect now w call (w.note k fun entry => { entry with checked := true }) call'
  | spent {userID : Uuid} {codeHash : List UInt8} {call' : AuthCall} {k : Nat} (row : RecoveryRow)
      (hrow : w.store.recoveryCodes.find? (MfaStore.spendable userID codeHash) = some row)
      (hcall : call.entry = some k) (hentry : call'.entry = some k)
      (hretired : call'.retired = none) :
      AuthEffect now w call
        (AuthWorld.note { w with store := (w.store.SpendRecoveryCode userID codeHash now).2 } k
          fun entry => { entry with spent := some row.id }) call'
  | consumed {hash : List UInt8} {userID : Uuid} {client : SignIn} {k : Nat}
      (hcall : call = .consume k hash userID client) :
      AuthEffect now w call
        (AuthWorld.note { w with store := w.store.ConsumeMFAChallenge hash now } k
          fun entry => { entry with consumed := true }) (.readUser k userID client)
  | session {store : MfaStore} {call' : AuthCall} {k : Nat} (hcall : call.retired = some k)
      (hquiet : Quiet w { w with store }) (hentry : call'.entry = none)
      (hretired : call'.retired = none) :
      AuthEffect now w call
        (AuthWorld.note { w with store } k fun entry => { entry with session := true }) call'
  /-- The factor of an account is replaced or cleared. -/
  | dropped {store : MfaStore} {userID : Uuid} {call' : AuthCall}
      (hchallenges : store.challenges = w.store.challenges)
      (hcodes : store.recoveryCodes = w.store.recoveryCodes.filter (·.userID != userID))
      (hnext : store.nextID = w.store.nextID)
      (hentry : call'.entry = none) (hretired : call'.retired = none) :
      AuthEffect now w call { w with store } call'
  /-- A factor is confirmed, with new recovery codes. -/
  | replaced {store : MfaStore} {userID : Uuid} {hashes : List (List UInt8)} {call' : AuthCall}
      (hchallenges : store.challenges = w.store.challenges)
      (hcodes : store.recoveryCodes = w.store.recoveryCodes.filter (·.userID != userID) ++
        hashes.mapIdx fun i codeHash => ⟨w.store.nextID + i, userID, codeHash, none⟩)
      (hnext : store.nextID = w.store.nextID + hashes.length)
      (hentry : call'.entry = none) (hretired : call'.retired = none) :
      AuthEffect now w call { w with store } call'

/-! ## Statements that change nothing here -/

theorem quiet_refl (w : AuthWorld) : Quiet w w := ⟨rfl, rfl, rfl, rfl⟩

theorem ClaimMFAChallenge_none {s : MfaStore} {hash : List UInt8} {limit : Nat} {now : Instant}
    (h : s.challenges.find? (MfaStore.claimable hash limit now) = none) :
    (s.ClaimMFAChallenge hash limit now).2 = s := by
  unfold MfaStore.ClaimMFAChallenge
  rw [map_if_of_find?_none h]

theorem SpendRecoveryCode_none {s : MfaStore} {userID : Uuid} {codeHash : List UInt8}
    (now : Instant) (h : s.recoveryCodes.find? (MfaStore.spendable userID codeHash) = none) :
    (s.SpendRecoveryCode userID codeHash now).2 = s := by
  unfold MfaStore.SpendRecoveryCode
  rw [map_if_of_find?_none h]

/-- A session is a row of another table, or it is refused. -/
theorem quiet_CreateSession (w : AuthWorld) (session : SessionRow) :
    Quiet w { w with store := (w.store.CreateSession session).2 } := by
  unfold MfaStore.CreateSession
  split_ifs
  · exact quiet_refl w
  · exact ⟨rfl, rfl, rfl, rfl⟩

/-! ## Steps -/

section

variable {cfg : AuthConfig} {now : Instant} {w : AuthWorld} {call : AuthCall}

/-- A step that writes nothing and leaves the history for good. -/
theorem effect_read {call' : AuthCall} (hentry : call'.entry = none)
    (hretired : call'.retired = none) : AuthEffect now w call w call' :=
  .quiet (quiet_refl w) (.inl hentry) (.inl hretired)

theorem effect_loginStep (username password : GoString) (totpEnabled : Bool) (client : SignIn) :
    AuthEffect now w call w (loginStep cfg username password totpEnabled client w) := by
  unfold loginStep
  split
  · exact effect_read rfl rfl
  · split_ifs <;> exact effect_read rfl rfl

theorem effect_startFactorStep (userID : Uuid) (client : SignIn) :
    AuthEffect now w call w (startFactorStep userID client w) := by
  unfold startFactorStep
  split
  · exact effect_read rfl rfl
  · split_ifs <;> exact effect_read rfl rfl

theorem effect_insertChallenge {userID : Uuid} {client : SignIn} {w' : AuthWorld}
    {call' : AuthCall}
    (hstep : authStep cfg now w (.insertChallenge userID client) = some (w', call')) :
    AuthEffect now w call w' call' := by
  simp only [authStep, MfaStore.insertChallenge] at hstep
  split_ifs at hstep
  · obtain ⟨rfl, rfl⟩ := Prod.mk.inj (Option.some.inj hstep)
    exact effect_read rfl rfl
  · obtain ⟨rfl, rfl⟩ := Prod.mk.inj (Option.some.inj hstep)
    exact .inserted _ rfl rfl rfl rfl rfl rfl rfl

theorem effect_loginSession {userID : Uuid} {client : SignIn} {w' : AuthWorld} {call' : AuthCall}
    (hstep : authStep cfg now w (.loginSession userID client) = some (w', call')) :
    AuthEffect now w call w' call' := by
  have hquiet := quiet_CreateSession w (client.row cfg userID now)
  simp only [authStep] at hstep
  cases hcreate : w.store.CreateSession (client.row cfg userID now) with
  | mk result store =>
    rw [hcreate] at hstep hquiet
    cases result with
    | error e =>
      obtain ⟨rfl, rfl⟩ := Prod.mk.inj (Option.some.inj hstep)
      exact .quiet hquiet (.inl rfl) (.inl rfl)
    | ok =>
      obtain ⟨rfl, rfl⟩ := Prod.mk.inj (Option.some.inj hstep)
      exact .quiet hquiet (.inl rfl) (.inl rfl)

theorem effect_claimStep (hash : List UInt8) (code : GoString) (client : SignIn) :
    AuthEffect now w call (claimStep hash code client now w).1
      (claimStep hash code client now w).2 := by
  cases hfind : w.store.challenges.find? (MfaStore.claimable hash mfaAttemptLimit now) with
  | none =>
    have hstore := ClaimMFAChallenge_none hfind
    simp only [claimStep, MfaStore.ClaimMFAChallenge, hfind] at hstore ⊢
    rw [hstore]
    exact effect_read rfl rfl
  | some row =>
    have hclaimed : AuthEffect now w call _ (.checkCode w.history.length hash row.userID code client) :=
      .claimed row hfind
    simpa only [claimStep, MfaStore.ClaimMFAChallenge, hfind] using hclaimed

theorem effect_checkCodeStep {k : Nat} (hash : List UInt8) (userID : Uuid) (code : GoString)
    (client : SignIn) (hcall : call.entry = some k) :
    AuthEffect now w call (checkCodeStep cfg k hash userID code client now w).1
      (checkCodeStep cfg k hash userID code client now w).2 := by
  unfold checkCodeStep
  cases w.store.GetMFAState userID with
  | error e => exact effect_read rfl rfl
  | ok state =>
    by_cases henrolled : state.Enrolled
    · simp only [henrolled, Bool.not_true, Bool.false_eq_true, if_false]
      cases cfg.box.Open cfg.crypto state.secret with
      | none => exact .checked hcall (.inl rfl) rfl
      | some plaintext =>
        dsimp only
        split_ifs
        · exact .checked hcall (.inr rfl) rfl
        · exact .checked hcall (.inl rfl) rfl
        · exact .checked hcall (.inr rfl) rfl
    · simp only [henrolled]
      exact effect_read rfl rfl

theorem effect_spendStep {k : Nat} (hash : List UInt8) (userID : Uuid) (codeHash : List UInt8)
    (client : SignIn) (hcall : call.entry = some k) :
    AuthEffect now w call (spendStep k hash userID codeHash client now w).1
      (spendStep k hash userID codeHash client now w).2 := by
  cases hfind : w.store.recoveryCodes.find? (MfaStore.spendable userID codeHash) with
  | none =>
    have hstore := SpendRecoveryCode_none now hfind
    simp only [spendStep, MfaStore.SpendRecoveryCode, hfind] at hstore ⊢
    rw [hstore]
    exact effect_read rfl rfl
  | some row =>
    have hspent : AuthEffect now w call _ (.consume k hash userID client) :=
      .spent row hfind hcall rfl rfl
    simpa only [spendStep, MfaStore.SpendRecoveryCode, hfind] using hspent

theorem effect_verifySessionStep {k : Nat} (userID : Uuid) (client : SignIn)
    (hcall : call.retired = some k) :
    AuthEffect now w call (verifySessionStep cfg k userID client now w).1
      (verifySessionStep cfg k userID client now w).2 := by
  have hquiet := quiet_CreateSession w (client.row cfg userID now)
  unfold verifySessionStep
  cases hcreate : w.store.CreateSession (client.row cfg userID now) with
  | mk result store =>
    rw [hcreate] at hquiet
    cases result with
    | error e => exact .quiet hquiet (.inl rfl) (.inl rfl)
    | ok => exact .session hcall hquiet rfl rfl

theorem effect_setSecretStep (userID : Uuid) (sealed : List UInt8) (draw : EnrollDraw) :
    AuthEffect now w call (setSecretStep userID sealed draw w).1
      (setSecretStep userID sealed draw w).2 := by
  simp only [setSecretStep, MfaStore.SetTOTPSecret]
  split_ifs
  · exact effect_read rfl rfl
  · dsimp only
    split <;> exact .dropped rfl rfl rfl rfl rfl

theorem effect_confirmStep (userID : Uuid) (totpEnabled : Bool) (code : GoString)
    (draws : Fin recoveryCodeCount → Fin 10 → UInt8) :
    AuthEffect now w call w (confirmStep cfg userID totpEnabled code draws now w) := by
  unfold confirmStep
  split <;> exact effect_read rfl rfl

theorem effect_confirmWriteStep (userID : Uuid) (codes : List GoString) :
    AuthEffect now w call (confirmWriteStep cfg userID codes now w).1
      (confirmWriteStep cfg userID codes now w).2 := by
  simp only [confirmWriteStep, MfaStore.ConfirmTOTP]
  split_ifs
  · exact effect_read rfl rfl
  · exact effect_read rfl rfl
  · exact .replaced rfl rfl rfl rfl rfl

theorem effect_clear {userID : Uuid} {w' : AuthWorld} {call' : AuthCall}
    (hstep : authStep cfg now w (.clear userID) = some (w', call')) :
    AuthEffect now w call w' call' := by
  simp only [authStep, MfaStore.ClearTOTP] at hstep
  split_ifs at hstep
  · obtain ⟨rfl, rfl⟩ := Prod.mk.inj (Option.some.inj hstep)
    exact effect_read rfl rfl
  · obtain ⟨rfl, rfl⟩ := Prod.mk.inj (Option.some.inj hstep)
    exact .dropped rfl rfl rfl rfl rfl

/-- Every step of a call has one of the effects. -/
theorem authStep_effect {w' : AuthWorld} {call' : AuthCall}
    (hstep : authStep cfg now w call = some (w', call')) : AuthEffect now w call w' call' := by
  cases call with
  | idle | done => simp [authStep] at hstep
  | insertChallenge => exact effect_insertChallenge hstep
  | loginSession => exact effect_loginSession hstep
  | clear => exact effect_clear hstep
  | readUser k userID client =>
    simp only [authStep] at hstep
    split at hstep
    · obtain ⟨rfl, rfl⟩ := Prod.mk.inj (Option.some.inj hstep)
      exact effect_read rfl rfl
    · obtain ⟨rfl, rfl⟩ := Prod.mk.inj (Option.some.inj hstep)
      exact .quiet (quiet_refl _) (.inr rfl) (.inr rfl)
  | _ =>
    obtain ⟨rfl, rfl⟩ := Prod.mk.inj (Option.some.inj hstep)
    first
      | exact effect_loginStep ..
      | exact effect_startFactorStep ..
      | exact .swept rfl rfl
      | exact effect_claimStep ..
      | exact effect_checkCodeStep _ _ _ _ rfl
      | exact effect_spendStep _ _ _ _ rfl
      | exact .consumed rfl
      | exact effect_verifySessionStep _ _ rfl
      | exact effect_setSecretStep ..
      | exact effect_confirmStep ..
      | exact effect_confirmWriteStep ..
      | (split_ifs <;> exact effect_read rfl rfl)
      | (split <;> exact effect_read rfl rfl)

/-- A request begins as a call without an entry. -/
theorem entry_request (request : AuthRequest) :
    (request.call cfg).entry = none ∧ (request.call cfg).retired = none := by
  unfold AuthRequest.call
  cases request with
  | login | confirm | reset => exact ⟨rfl, rfl⟩
  | verify => dsimp only; split_ifs <;> exact ⟨rfl, rfl⟩
  | enroll => dsimp only; split <;> exact ⟨rfl, rfl⟩
  | disable => dsimp only; split_ifs <;> exact ⟨rfl, rfl⟩

/-- So does every step of a process. -/
theorem authCalls_effect {w' : AuthWorld} {call' : AuthCall} {a : AuthAction}
    (hstep : (authCalls cfg).step w call a = some (w', call')) :
    ∃ now, AuthEffect now w call w' call' := by
  cases a with
  | start request =>
    simp only [authCalls] at hstep
    split_ifs at hstep
    obtain ⟨rfl, rfl⟩ := Prod.mk.inj (Option.some.inj hstep)
    exact ⟨0, effect_read (entry_request request).1 (entry_request request).2⟩
  | next now => exact ⟨now, authStep_effect hstep⟩

end

end Purels.Properties
