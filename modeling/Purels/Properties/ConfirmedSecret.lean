import Purels.Properties.FactorKept
import Purels.Service.AuthCalls

/-!
# Which secret a confirmation confirms

Runs of any number of calls of `Enroll` and `Confirm`, with the other calls of the
second factor and the sign-ins among them.

* `FactorWrite` and `authStep_factor`: what a step does to the secrets.
* `CodeChecked`: a confirmation between its read and its write.
* `only_proven_confirmed`, the run theorem, and `unproven_confirmed`, a run in which an
  enrolment comes between the read and the write.
-/

namespace Purels.Properties

open Go Security Store Service TwoFactorService Lib

/-! ## The stored factor -/

/-- What is stored of an account's factor: the secret and the confirmation. -/
def factorOf (s : MfaStore) (userID : Uuid) : Option (Option (List UInt8) × Option Instant) :=
  (s.userRow userID).map fun user => (user.totpSecret, user.totpConfirmedAt)

/-- The account is enrolled. -/
def Enrolled (s : MfaStore) (userID : Uuid) : Prop :=
  ∃ state, s.GetMFAState userID = .ok state ∧ state.Enrolled

theorem userRow_setFactor {s : MfaStore} {target userID : Uuid} {set : UserRow → UserRow}
    (hset : ∀ user, (set user).id = user.id) :
    (s.setFactor target set).userRow userID =
      (s.userRow userID).map fun user => if userID = target then set user else user := by
  have hid : ∀ user : UserRow, (if user.id == target then set user else user).id = user.id := by
    intro user
    split_ifs
    · exact hset user
    · rfl
  show (s.users.map _).find? _ = (s.users.find? _).map _
  rw [List.find?_map]
  have hsame : ((fun user : UserRow => user.id == userID) ∘ fun user =>
      if user.id == target then set user else user) = fun user => user.id == userID := by
    funext user
    show ((if user.id == target then set user else user).id == userID) = (user.id == userID)
    rw [hid]
  rw [hsame]
  cases hfind : s.users.find? (fun user => user.id == userID) with
  | none => rfl
  | some user =>
    have huser : user.id = userID := by simpa using List.find?_some hfind
    simp only [Option.map_some, huser, beq_iff_eq]

/-- What the write of a confirmation does. -/
structure ConfirmWrite (cfg : AuthConfig) (w w' : AuthWorld) (target : Uuid) (now : Instant)
    (codes : List GoString) : Prop where
  secret : ∃ sealed confirmed, factorOf w.store target = some (some sealed, confirmed)
  factors : ∀ userID, factorOf w'.store userID =
    (factorOf w.store userID).map fun factor =>
      if userID = target then (factor.1, some now) else factor
  codes : (w'.store.recoveryCodes.filter (·.userID == target)).map (·.codeHash) =
    recoveryHashes cfg codes

/-- The factor of an account after a statement of the call: the same one, the one that is
being written, or none. -/
inductive FactorWrite (cfg : AuthConfig) (w : AuthWorld) (call : AuthCall) (w' : AuthWorld)
    (call' : AuthCall) : Prop
  | kept (h : ∀ userID, factorOf w'.store userID = factorOf w.store userID)
  | stored {target : Uuid} {sealed : List UInt8} {draw : EnrollDraw}
      (hcall : call = .setSecret target sealed draw)
      (h : ∀ userID, factorOf w'.store userID =
        (factorOf w.store userID).map fun factor =>
          if userID = target then (some sealed, none) else factor)
  | confirmed {target : Uuid} {secret : List UInt8} {code : GoString} {checkedAt now : Instant}
      {codes : List GoString} (hcall : call = .confirmWrite target secret code checkedAt codes)
      (hwrite : ConfirmWrite cfg w w' target now codes) (hcall' : call' = .done (.confirmed codes))
  | cleared {target : Uuid}
      (h : ∀ userID, factorOf w'.store userID =
        (factorOf w.store userID).map fun factor =>
          if userID = target then (none, none) else factor)

section

variable {cfg : AuthConfig} {now : Instant} {w w' : AuthWorld} {call call' : AuthCall}

/-- A write of the account's columns, seen through the factors. -/
theorem factorOf_setFactor {s : MfaStore} {target userID : Uuid} {set : UserRow → UserRow}
    {write : Option (List UInt8) × Option Instant → Option (List UInt8) × Option Instant}
    (hset : ∀ user, (set user).id = user.id)
    (hwrite : ∀ user, ((set user).totpSecret, (set user).totpConfirmedAt) =
      write (user.totpSecret, user.totpConfirmedAt)) :
    factorOf (s.setFactor target set) userID =
      (factorOf s userID).map fun factor => if userID = target then write factor else factor := by
  rw [factorOf, factorOf, userRow_setFactor hset, Option.map_map, Option.map_map]
  congr 1
  funext user
  show ((if userID = target then set user else user).totpSecret,
    (if userID = target then set user else user).totpConfirmedAt) = _
  by_cases htarget : userID = target
  · simp [htarget, hwrite]
  · simp [htarget]

/-- Nothing but the accounts matters. -/
theorem factorOf_users {s t : MfaStore} (h : t.users = s.users) (userID : Uuid) :
    factorOf t userID = factorOf s userID := by
  rw [factorOf, factorOf, MfaStore.userRow, MfaStore.userRow, h]

theorem factorWrite_of_users (h : w'.store.users = w.store.users) :
    FactorWrite cfg w call w' call' := .kept fun userID => factorOf_users h userID

theorem users_CreateSession (s : MfaStore) (session : SessionRow) :
    (s.CreateSession session).2.users = s.users := by
  unfold MfaStore.CreateSession
  split_ifs <;> rfl

theorem factor_setSecretStep {userID : Uuid} {sealed : List UInt8} {draw : EnrollDraw}
    (hcall : call = .setSecret userID sealed draw) :
    FactorWrite cfg w call (setSecretStep userID sealed draw w).1
      (setSecretStep userID sealed draw w).2 := by
  simp only [setSecretStep, MfaStore.SetTOTPSecret]
  split_ifs
  · exact factorWrite_of_users rfl
  · exact .stored hcall fun userID => factorOf_setFactor (fun _ => rfl) (fun _ => rfl)

/-- The codes of the account after a confirmation are the new ones. -/
theorem codes_of_insert (s : MfaStore) (userID : Uuid) (hashes : List (List UInt8)) :
    (((s.deleteCodes userID).insertCodes userID hashes).recoveryCodes.filter
      (·.userID == userID)).map (·.codeHash) = hashes := by
  have hold : ((s.deleteCodes userID).recoveryCodes.filter (·.userID == userID)) = [] := by
    refine List.filter_eq_nil_iff.mpr fun row hrow => ?_
    have hother := (List.mem_filter.mp hrow).2
    simpa using hother
  simp only [MfaStore.insertCodes]
  rw [List.filter_append, hold, List.nil_append, List.filter_eq_self.mpr]
  · exact List.ext_getElem (by simp) fun i _ _ => by simp
  · intro row hrow
    obtain ⟨i, hi, rfl⟩ := List.mem_mapIdx.mp hrow
    simp

/-- The write of a confirmation is refused, or it confirms the secret that is stored. -/
theorem confirmWriteStep_cases (cfg : AuthConfig) (userID : Uuid) (codes : List GoString)
    (now : Instant) (w : AuthWorld) :
    (∃ e, confirmWriteStep cfg userID codes now w = (w, .done (.failed e))) ∨
      ConfirmWrite cfg w (confirmWriteStep cfg userID codes now w).1 userID now codes ∧
        (confirmWriteStep cfg userID codes now w).2 = .done (.confirmed codes) := by
  simp only [confirmWriteStep, MfaStore.ConfirmTOTP]
  split_ifs with hnone htaken
  · exact .inl ⟨_, rfl⟩
  · exact .inl ⟨_, rfl⟩
  · refine .inr ⟨⟨?_, fun userID => ?_, codes_of_insert w.store _ _⟩, rfl⟩
    · cases hrow : w.store.userRow userID with
      | none => simp [hrow] at hnone
      | some user =>
        cases hsecret : user.totpSecret with
        | none => simp [hrow, hsecret] at hnone
        | some sealed =>
          refine ⟨sealed, user.totpConfirmedAt, ?_⟩
          rw [factorOf, hrow]
          simp [hsecret]
    · exact factorOf_setFactor (fun _ => rfl) (fun _ => rfl)

/-- What a step does to the factors. -/
theorem authStep_factor (hstep : authStep cfg now w call = some (w', call')) :
    FactorWrite cfg w call w' call' := by
  cases call with
  | idle | done => simp [authStep] at hstep
  | insertChallenge userID client =>
    refine factorWrite_of_users ?_
    simp only [authStep, MfaStore.insertChallenge] at hstep
    split_ifs at hstep <;> obtain ⟨rfl, rfl⟩ := Prod.mk.inj (Option.some.inj hstep) <;> rfl
  | loginSession userID client =>
    have husers := users_CreateSession w.store (client.row cfg userID now)
    refine factorWrite_of_users ?_
    simp only [authStep] at hstep
    split at hstep
    all_goals
      rename_i hcreate
      rw [hcreate] at husers
      obtain ⟨rfl, rfl⟩ := Prod.mk.inj (Option.some.inj hstep)
      exact husers
  | verifySession k userID client =>
    have husers := users_CreateSession w.store (client.row cfg userID now)
    obtain ⟨rfl, rfl⟩ := Prod.mk.inj (Option.some.inj hstep)
    refine factorWrite_of_users ?_
    split
    all_goals
      rename_i hcreate
      rw [hcreate] at husers
      exact husers
  | claim hash code client =>
    obtain ⟨rfl, rfl⟩ := Prod.mk.inj (Option.some.inj hstep)
    refine factorWrite_of_users ?_
    simp only [MfaStore.ClaimMFAChallenge]
    split <;> rename_i h <;> obtain ⟨-, rfl⟩ := Prod.mk.inj h <;> rfl
  | checkCode k hash userID code client =>
    obtain ⟨rfl, rfl⟩ := Prod.mk.inj (Option.some.inj hstep)
    refine factorWrite_of_users ?_
    split
    · rfl
    · split_ifs <;> rfl
  | spend k hash userID codeHash client =>
    obtain ⟨rfl, rfl⟩ := Prod.mk.inj (Option.some.inj hstep)
    refine factorWrite_of_users ?_
    simp only [MfaStore.SpendRecoveryCode]
    split <;> rename_i h <;> obtain ⟨-, rfl⟩ := Prod.mk.inj h <;> rfl
  | readUser k userID client =>
    refine factorWrite_of_users ?_
    simp only [authStep] at hstep
    split at hstep <;> obtain ⟨rfl, rfl⟩ := Prod.mk.inj (Option.some.inj hstep) <;> rfl
  | setSecret userID sealed draw =>
    obtain ⟨rfl, rfl⟩ := Prod.mk.inj (Option.some.inj hstep)
    exact factor_setSecretStep rfl
  | confirmWrite userID secret code checkedAt codes =>
    have hstep := Option.some.inj hstep
    rcases confirmWriteStep_cases cfg userID codes now w with ⟨e, hfailed⟩ | ⟨hwrite, hdone⟩
    · obtain ⟨rfl, rfl⟩ := Prod.mk.inj (hfailed.symm.trans hstep)
      exact factorWrite_of_users rfl
    · rw [hstep] at hwrite hdone
      exact .confirmed rfl hwrite hdone
  | clear userID =>
    simp only [authStep, MfaStore.ClearTOTP] at hstep
    split_ifs at hstep
    · obtain ⟨rfl, rfl⟩ := Prod.mk.inj (Option.some.inj hstep)
      exact factorWrite_of_users rfl
    · obtain ⟨rfl, rfl⟩ := Prod.mk.inj (Option.some.inj hstep)
      exact .cleared fun userID => factorOf_setFactor (fun _ => rfl) (fun _ => rfl)
  | _ =>
    obtain ⟨rfl, rfl⟩ := Prod.mk.inj (Option.some.inj hstep)
    exact factorWrite_of_users rfl

/-! ## Confirmations in progress -/

/-- A confirmation between its read and its write has checked its code against the secret
that is stored, unless the factor has been cleared. -/
structure CodeChecked (cfg : AuthConfig) (w : AuthWorld) (userID : Uuid) (secret : List UInt8)
    (code : GoString) (checkedAt : Instant) : Prop where
  verified : verifySecret cfg secret code checkedAt
  nonempty : secret ≠ []
  stored : ∀ factor, factorOf w.store userID = some factor →
    factor.1 = some secret ∨ factor.1 = none

/-- Where a process stands. -/
def InProgress (cfg : AuthConfig) (w : AuthWorld) : AuthCall → Prop
  | .confirmWrite userID secret code checkedAt _ => CodeChecked cfg w userID secret code checkedAt
  | _ => True

/-- No enrolment stores another secret while a confirmation of the account is between its
read and its write. -/
def SecretStays (s : Pool AuthWorld AuthCall) (a : ℕ × AuthAction) : Prop :=
  match s.locals a.1 with
  | .setSecret userID sealed _ => ∀ j secret code checkedAt codes,
      s.locals j = .confirmWrite userID secret code checkedAt codes → sealed = secret
  | _ => True

theorem GetMFAState_eq (s : MfaStore) (userID : Uuid) :
    s.GetMFAState userID = match factorOf s userID with
      | none => .error .notFound
      | some factor => .ok ⟨factor.1.getD [], factor.2⟩ := by
  unfold MfaStore.GetMFAState factorOf
  cases s.userRow userID <;> rfl

/-- A confirmation that has read the secret. -/
theorem checked_confirmStep {userID : Uuid} {totpEnabled : Bool} {code : GoString}
    {draws : Fin recoveryCodeCount → Fin 10 → UInt8} :
    InProgress cfg w (confirmStep cfg userID totpEnabled code draws now w) := by
  unfold confirmStep
  split
  · trivial
  · rename_i secret hconfirmable
    unfold confirmable at hconfirmable
    split_ifs at hconfirmable
    rw [GetMFAState_eq] at hconfirmable
    cases hfactor : factorOf w.store userID with
    | none => simp [hfactor] at hconfirmable
    | some factor =>
      simp only [hfactor] at hconfirmable
      split_ifs at hconfirmable with hnone hverify
      obtain rfl := Except.ok.inj hconfirmable
      refine ⟨hverify, hnone, fun other hother => ?_⟩
      obtain rfl : factor = other := by simpa [hfactor] using hother
      cases hsecret : factor.1 with
      | none => exact .inr rfl
      | some sealed => exact .inl rfl

/-- A step leaves its call in progress. -/
theorem inProgress_own (hstep : authStep cfg now w call = some (w', call')) :
    InProgress cfg w' call' := by
  cases call with
  | idle | done => simp [authStep] at hstep
  | confirm userID totpEnabled code draws =>
    obtain ⟨rfl, rfl⟩ := Prod.mk.inj (Option.some.inj hstep)
    exact checked_confirmStep
  | loginSession | readUser | insertChallenge | clear =>
    simp only [authStep] at hstep
    split at hstep <;> obtain ⟨rfl, rfl⟩ := Prod.mk.inj (Option.some.inj hstep) <;> trivial
  | login =>
    obtain ⟨rfl, rfl⟩ := Prod.mk.inj (Option.some.inj hstep)
    unfold loginStep
    repeat' split
    all_goals trivial
  | startFactor =>
    obtain ⟨rfl, rfl⟩ := Prod.mk.inj (Option.some.inj hstep)
    unfold startFactorStep
    repeat' split
    all_goals trivial
  | _ =>
    -- the other steps end the call, or lead to a statement that is no write of a confirmation
    obtain ⟨rfl, rfl⟩ := Prod.mk.inj (Option.some.inj hstep)
    repeat' split
    all_goals trivial

/-- What a step does to the factors leaves a confirmation of another process in progress. -/
theorem CodeChecked.other {userID : Uuid} {secret : List UInt8} {code : GoString} {checkedAt : Instant}
    (h : CodeChecked cfg w userID secret code checkedAt) (hwrite : FactorWrite cfg w call w' call')
    (hstays : ∀ sealed draw, call = .setSecret userID sealed draw → sealed = secret) :
    CodeChecked cfg w' userID secret code checkedAt := by
  refine ⟨h.verified, h.nonempty, fun factor hfactor => ?_⟩
  cases hwrite with
  | kept hkept => exact h.stored factor (hkept userID ▸ hfactor)
  | @stored target sealed draw hcall hstored =>
    rw [hstored, Option.map_eq_some_iff] at hfactor
    obtain ⟨old, hold, rfl⟩ := hfactor
    split_ifs with htarget
    · subst htarget
      exact .inl (congrArg some (hstays sealed draw hcall))
    · exact h.stored old hold
  | confirmed hcall hconfirmed =>
    rw [hconfirmed.factors, Option.map_eq_some_iff] at hfactor
    obtain ⟨old, hold, rfl⟩ := hfactor
    split_ifs <;> exact h.stored old hold
  | cleared hcleared =>
    rw [hcleared, Option.map_eq_some_iff] at hfactor
    obtain ⟨old, hold, rfl⟩ := hfactor
    split_ifs
    · exact .inr rfl
    · exact h.stored old hold

/-- A request does not begin in the middle. -/
theorem inProgress_request (request : AuthRequest) : InProgress cfg w (request.call cfg) := by
  unfold AuthRequest.call
  repeat' split
  all_goals trivial

end

/-! ## Runs -/

section

variable {cfg : AuthConfig} {init s t : Pool AuthWorld AuthCall} {as : List (ℕ × AuthAction)}

/-- Every confirmation in progress has checked its code against the stored secret. -/
theorem run_inProgress (hidle : ∀ i, init.locals i = .idle)
    (hstays : (authCalls cfg).machine.Along SecretStays init as)
    (hrun : (authCalls cfg).machine.run init as = some s) (i : ℕ) :
    InProgress cfg s.shared (s.locals i) := by
  have hstart : ∀ i, InProgress cfg init.shared (init.locals i) := by
    intro i
    rw [hidle i]
    trivial
  refine Machine.run_invariant_along _
    (I := fun s : Pool AuthWorld AuthCall => ∀ i, InProgress cfg s.shared (s.locals i))
    (C := SecretStays) ?_ hstart hstays hrun i
  rintro s ⟨i, a⟩ t hs hcond hstep j
  obtain ⟨call', hstep, hi, hothers⟩ := Process.step_cases hstep
  cases a with
  | start request =>
    simp only [authCalls] at hstep
    split_ifs at hstep
    obtain ⟨hshared, rfl⟩ := Prod.mk.inj (Option.some.inj hstep)
    rw [← hshared]
    by_cases hji : j = i
    · rw [hji, hi]
      exact inProgress_request request
    · rw [hothers j hji]
      exact hs j
  | next now =>
    by_cases hji : j = i
    · rw [hji, hi]
      exact inProgress_own hstep
    · rw [hothers j hji]
      have hj := hs j
      cases hlocal : s.locals j with
      | confirmWrite userID secret code checkedAt codes =>
        rw [hlocal] at hj
        refine CodeChecked.other hj (authStep_factor hstep) fun sealed draw hcall => ?_
        simp only [SecretStays, hcall] at hcond
        exact hcond j secret code checkedAt codes hlocal
      | _ => trivial

/-- What a confirmation leaves: the account is enrolled with the secret its code was
verified against, and the stored recovery codes are the ones it returns. -/
structure Proven (cfg : AuthConfig) (w : AuthWorld) (userID : Uuid) (secret : List UInt8)
    (code : GoString) (checkedAt : Instant) (codes : List GoString) : Prop where
  stored : ∃ state, w.store.GetMFAState userID = .ok state ∧ state.Enrolled ∧ state.secret = secret
  verified : verifySecret cfg secret code checkedAt
  codes : (w.store.recoveryCodes.filter (·.userID == userID)).map (·.codeHash) =
    recoveryHashes cfg codes

/-- A process runs the write of a confirmation, and it succeeds. -/
def Confirms (s t : Pool AuthWorld AuthCall) (i : ℕ) (userID : Uuid) (secret : List UInt8)
    (code : GoString) (checkedAt : Instant) (codes : List GoString) : Prop :=
  s.locals i = .confirmWrite userID secret code checkedAt codes ∧
    t.locals i = .done (.confirmed codes)

theorem enrolled_iff {v : MfaStore} {userID : Uuid} :
    Enrolled v userID ↔ ∃ factor, factorOf v userID = some factor ∧ factor.2.isSome ∧
      factor.1.getD [] ≠ [] := by
  unfold Enrolled
  rw [GetMFAState_eq]
  cases factorOf v userID with
  | none => simp
  | some factor => simp [MFAState.Enrolled]

/-- Only a step of a confirmation enrols an account. -/
theorem enrolled_by_confirm {userID : Uuid} {i : ℕ} {a : AuthAction}
    (hstep : (authCalls cfg).machine.step s (i, a) = some t)
    (hbefore : ¬ Enrolled s.shared.store userID) (hafter : Enrolled t.shared.store userID) :
    ∃ secret code checkedAt codes, Confirms s t i userID secret code checkedAt codes := by
  obtain ⟨call', hstep, hi, -⟩ := Process.step_cases hstep
  cases a with
  | start request =>
    simp only [authCalls] at hstep
    split_ifs at hstep
    obtain ⟨hshared, -⟩ := Prod.mk.inj (Option.some.inj hstep)
    rw [← hshared] at hafter
    exact absurd hafter hbefore
  | next now =>
    have hsame : factorOf t.shared.store userID ≠ factorOf s.shared.store userID := by
      intro hsame
      rw [enrolled_iff] at hbefore hafter
      rw [hsame] at hafter
      exact hbefore hafter
    obtain ⟨factor, hfactor, hconfirmed, hsecret⟩ := enrolled_iff.mp hafter
    cases authStep_factor hstep with
    | kept hkept => exact absurd (hkept userID) hsame
    | @stored target sealed draw hcall hstored =>
      rw [hstored, Option.map_eq_some_iff] at hfactor
      obtain ⟨old, hold, rfl⟩ := hfactor
      split_ifs at hconfirmed hsecret with htarget
      · exact absurd hconfirmed (by simp)
      · rw [hstored, hold] at hsame
        simp [htarget] at hsame
    | @confirmed target secret code checkedAt _ codes hcall hwrite hcall' =>
      by_cases htarget : userID = target
      · subst htarget
        exact ⟨secret, code, checkedAt, codes, hcall, hi.trans hcall'⟩
      · rw [hwrite.factors] at hsame
        simp [htarget] at hsame
    | @cleared target hcleared =>
      rw [hcleared, Option.map_eq_some_iff] at hfactor
      obtain ⟨old, hold, rfl⟩ := hfactor
      split_ifs at hconfirmed hsecret with htarget
      · exact absurd hconfirmed (by simp)
      · rw [hcleared, hold] at hsame
        simp [htarget] at hsame

/-- Only a proven secret is confirmed.  In every run in which no enrolment stores another
secret while a confirmation of the account is between its read and its write, an account
becomes enrolled by a confirmation alone, and what a confirmation leaves is the secret its
code was verified against, with the recovery codes it returns. -/
theorem only_proven_confirmed {userID : Uuid} {i : ℕ} {a : AuthAction}
    (hidle : ∀ i, init.locals i = .idle)
    (hstays : (authCalls cfg).machine.Along SecretStays init as)
    (hrun : (authCalls cfg).machine.run init as = some s)
    (hstep : (authCalls cfg).machine.step s (i, a) = some t) :
    (¬ Enrolled s.shared.store userID → Enrolled t.shared.store userID →
      ∃ secret code checkedAt codes, Confirms s t i userID secret code checkedAt codes) ∧
    ∀ secret code checkedAt codes, Confirms s t i userID secret code checkedAt codes →
      Proven cfg t.shared userID secret code checkedAt codes := by
  refine ⟨enrolled_by_confirm hstep, fun secret code checkedAt codes hconfirms => ?_⟩
  obtain ⟨hcall, hdone⟩ := hconfirms
  have hchecked := run_inProgress hidle hstays hrun i
  rw [hcall] at hchecked
  obtain ⟨call', hstep, hi, -⟩ := Process.step_cases hstep
  rw [hcall] at hstep
  cases a with
  | start request => simp [authCalls, AuthCall.free] at hstep
  | next now =>
    have hstep : confirmWriteStep cfg userID codes now s.shared = (t.shared, call') :=
      Option.some.inj hstep
    rcases confirmWriteStep_cases cfg userID codes now s.shared with ⟨e, hfailed⟩ | ⟨hwrite, -⟩
    · -- a refused write does not end the call with its codes
      obtain ⟨-, hcall'⟩ := Prod.mk.inj (hfailed.symm.trans hstep)
      rw [hdone, ← hcall'] at hi
      exact absurd hi (by simp)
    · rw [hstep] at hwrite
      obtain ⟨sealed, confirmed, hfactor⟩ := hwrite.secret
      have hstored : sealed = secret := by
        rcases hchecked.stored _ hfactor with hsome | hnone
        · simpa using hsome
        · exact absurd hnone (by simp)
      subst hstored
      have hafter : factorOf t.shared.store userID = some (some sealed, some now) := by
        rw [hwrite.factors, hfactor]
        simp
      refine ⟨⟨⟨sealed, some now⟩, ?_, ?_, rfl⟩, hchecked.verified, hwrite.codes⟩
      · rw [GetMFAState_eq, hafter]
        rfl
      · simpa [MFAState.Enrolled] using hchecked.nonempty

end

/-! ## An account with an unconfirmed secret -/

/-- `ann` has begun an enrolment. -/
def pendingPool : Pool AuthWorld AuthCall where
  shared.store.users := [{ annRow with totpConfirmedAt := none }]
  locals _ := .idle

def confirmAnn : AuthRequest := .confirm default true (lit "000000") fun i j => UInt8.ofNat (i + j)

/-- The codes that confirmation returns. -/
def annCodes : List GoString := recoveryCodes fun i j => UInt8.ofNat (i + j)

/-- The confirmation before its write. -/
def readConfirm : List (ℕ × AuthAction) := [(0, .start confirmAnn), (0, .next 0)]

/-- A run and one more step, which ends the confirmation. -/
theorem confirms_of_eval (as : List (ℕ × AuthAction))
    (heval : ((authCalls plainConfig).machine.run pendingPool as).bind (fun s =>
      ((authCalls plainConfig).machine.step s (0, .next 0)).map fun t =>
        (s.locals 0, t.locals 0)) =
      some (.confirmWrite default (lit "AAAAAAAA") (lit "000000") 0 annCodes,
        .done (.confirmed annCodes))) :
    ∃ s t, (authCalls plainConfig).machine.run pendingPool as = some s ∧
      (authCalls plainConfig).machine.step s (0, .next 0) = some t ∧
      Confirms s t 0 default (lit "AAAAAAAA") (lit "000000") 0 annCodes := by
  obtain ⟨s, hrun, hrest⟩ := Option.bind_eq_some_iff.mp heval
  obtain ⟨t, hstep, hlocals⟩ := Option.map_eq_some_iff.mp hrest
  obtain ⟨hbefore, hafter⟩ := Prod.mk.inj hlocals
  exact ⟨s, t, hrun, hstep, hbefore, hafter⟩

theorem only_proven_confirmed_alone :
    ∃ s t, (authCalls plainConfig).machine.run pendingPool readConfirm = some s ∧
      (authCalls plainConfig).machine.step s (0, .next 0) = some t ∧
      Proven plainConfig t.shared default (lit "AAAAAAAA") (lit "000000") 0 annCodes := by
  obtain ⟨s, t, hrun, hstep, hconfirms⟩ := confirms_of_eval readConfirm (by rfl)
  have hstays : (authCalls plainConfig).machine.Along SecretStays pendingPool readConfirm := by
    refine Machine.along_of_check _ (C := fun s a => match s.locals a.1 with
      | .setSecret .. => false
      | _ => true) (fun s a hfree => ?_) (by rfl)
    unfold SecretStays
    split
    · rename_i hcall
      simp [hcall] at hfree
    · trivial
  exact ⟨s, t, hrun, hstep,
    (only_proven_confirmed (fun _ => rfl) hstays hrun hstep).2 _ _ _ _ hconfirms⟩

/-- An enrolment between the read and the write of the confirmation. -/
def enrollBetween : List (ℕ × AuthAction) :=
  readConfirm ++ [(1, .start (.enroll default true ⟨fun _ => 0, [], none⟩)), (1, .next 0)]

/-- The confirmation then confirms a secret nobody has proved to hold. -/
theorem unproven_confirmed :
    ¬ ∀ (init s t : Pool AuthWorld AuthCall) (as : List (ℕ × AuthAction)) (i : ℕ) (a : AuthAction)
      (userID : Uuid), (∀ i, init.locals i = .idle) →
      (authCalls plainConfig).machine.run init as = some s →
      (authCalls plainConfig).machine.step s (i, a) = some t →
      (¬ Enrolled s.shared.store userID → Enrolled t.shared.store userID →
        ∃ secret code checkedAt codes, Confirms s t i userID secret code checkedAt codes) ∧
      ∀ secret code checkedAt codes, Confirms s t i userID secret code checkedAt codes →
        Proven plainConfig t.shared userID secret code checkedAt codes := by
  intro hclaim
  have hsecret : ((authCalls plainConfig).machine.run pendingPool
      (enrollBetween ++ [(0, .next 0)])).map (fun t => factorOf t.shared.store default) =
      some (some (some (List.replicate 32 0x41), some 0)) := by decide
  obtain ⟨s, t, hrun, hstep, hconfirms⟩ := confirms_of_eval enrollBetween (by rfl)
  obtain ⟨state, hstate, -, hstored⟩ :=
    ((hclaim pendingPool s t enrollBetween 0 (.next 0) default (fun _ => rfl) hrun hstep).2 _ _ _ _
      hconfirms).stored
  have hlast : (authCalls plainConfig).machine.run pendingPool (enrollBetween ++ [(0, .next 0)]) =
      some t := by
    refine (Machine.run_append_eq_some _).mpr ⟨s, hrun, ?_⟩
    exact (Machine.run_cons_eq_some _).mpr ⟨t, hstep, rfl⟩
  rw [hlast] at hsecret
  have hfactor : factorOf t.shared.store default = some (some (List.replicate 32 0x41), some 0) :=
    Option.some.inj hsecret
  rw [GetMFAState_eq, hfactor] at hstate
  obtain rfl := Except.ok.inj hstate
  exact absurd hstored (by decide)

end Purels.Properties
