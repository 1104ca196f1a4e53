import Purels.Properties.FactorKept
import Purels.Properties.SignInSteps

/-!
# Concurrent sign-ins

Runs of any number of logins and of calls of `VerifySecondFactor`, with the calls of
the second factor among them.

* `Claims`, `Codes`: what holds of the challenges and of the recovery codes.
* `claims_bounded`, the run theorem of the attempts, the expiry and the recovery codes.
* `Retired`: a call past `ConsumeMFAChallenge` has consumed its challenge.
* `one_session`, the run theorem of the sessions, and `two_sessions`, a run in which
  two calls consume one challenge.
-/

namespace Purels.Properties

open Go Security Store Service TwoFactorService Lib

/-! ## Initial states -/

/-- No call has begun, and the keys of the tables are unique and used up to `nextID`. -/
structure Initial (s : Pool AuthWorld AuthCall) : Prop where
  idle : ∀ i, s.locals i = .idle
  history : s.shared.history = []
  challengeKeys : (s.shared.store.challenges.map (·.id)).Nodup
  challengeIDs : ∀ row ∈ s.shared.store.challenges, row.id < s.shared.store.nextID
  codeKeys : (s.shared.store.recoveryCodes.map (·.id)).Nodup
  codeIDs : ∀ row ∈ s.shared.store.recoveryCodes, row.id < s.shared.store.nextID

/-! ## Claims -/

/-- The claims of the history: challenge and time. -/
def claims (w : AuthWorld) : List (Nat × Instant) :=
  w.history.map fun entry => (entry.challenge, entry.claimedAt)

/-- How often a challenge has been claimed. -/
def claimCount (w : AuthWorld) (c : Nat) : Nat := (claims w).countP fun claim => claim.1 == c

/-- What holds of the challenges and their claims. -/
structure Claims (w : AuthWorld) : Prop where
  keys : (w.store.challenges.map (·.id)).Nodup
  ids : ∀ row ∈ w.store.challenges, row.id < w.store.nextID
  attempts : ∀ row ∈ w.store.challenges, claimCount w row.id ≤ row.attempts
  bounded : ∀ c, claimCount w c ≤ mfaAttemptLimit
  claimed : ∀ claim ∈ claims w, claim.1 < w.store.nextID

/-- A note on an entry leaves the claims alone. -/
theorem claims_note (w : AuthWorld) (k : Nat) {set : Claimed → Claimed}
    (hset : ∀ entry, ((set entry).challenge, (set entry).claimedAt) =
      (entry.challenge, entry.claimedAt)) : claims (w.note k set) = claims w :=
  map_modify_of_eq hset w.history k

section

variable {now : Instant} {w w' : AuthWorld} {call call' : AuthCall}

/-- A step without a new claim or a new challenge. -/
theorem Claims.of_rows (h : Claims w) (hkeys : (w'.store.challenges.map (·.id)).Nodup)
    (hrows : ∀ row ∈ w'.store.challenges, ∃ old ∈ w.store.challenges,
      row.id = old.id ∧ old.attempts ≤ row.attempts)
    (hnext : w.store.nextID ≤ w'.store.nextID) (hclaims : claims w' = claims w) : Claims w' := by
  have hcount : ∀ c, claimCount w' c = claimCount w c := fun c => by rw [claimCount, hclaims]; rfl
  refine ⟨hkeys, ?_, ?_, ?_, ?_⟩
  · intro row hrow
    obtain ⟨old, hold, hid, -⟩ := hrows row hrow
    have hold := h.ids old hold
    omega
  · intro row hrow
    obtain ⟨old, hold, hid, hattempts⟩ := hrows row hrow
    have hold := h.attempts old hold
    rw [hcount, hid]
    omega
  · intro c
    rw [hcount]
    exact h.bounded c
  · intro claim hclaim
    rw [hclaims] at hclaim
    have hid := h.claimed claim hclaim
    omega

/-- The challenges are the same ones. -/
theorem Claims.of_challenges (h : Claims w) (hrows : w'.store.challenges = w.store.challenges)
    (hnext : w.store.nextID ≤ w'.store.nextID) (hclaims : claims w' = claims w) : Claims w' :=
  h.of_rows (hrows ▸ h.keys) (fun row hrow => ⟨row, hrows ▸ hrow, rfl, le_rfl⟩) hnext hclaims

/-- No claim is of a challenge to come. -/
theorem Claims.count_next (h : Claims w) : claimCount w w.store.nextID = 0 := by
  refine List.countP_eq_zero.mpr fun claim hclaim => ?_
  have hid := h.claimed claim hclaim
  simp only [beq_iff_eq]
  omega

theorem Claims.insert (h : Claims w) {store : MfaStore} {row : ChallengeRow}
    (hid : row.id = w.store.nextID) (hrows : store.challenges = w.store.challenges ++ [row])
    (hnext : store.nextID = w.store.nextID + 1) : Claims { w with store } := by
  have hclaims : claims { w with store } = claims w := rfl
  refine ⟨?_, ?_, ?_, h.bounded, ?_⟩
  · rw [hrows, List.map_append, List.nodup_append]
    refine ⟨h.keys, by simp, ?_⟩
    intro a ha b hb
    obtain ⟨old, hold, rfl⟩ := List.mem_map.mp ha
    have hlt := h.ids old hold
    have hb : b = row.id := by simpa using hb
    omega
  · intro new hnew
    rw [hrows] at hnew
    show new.id < store.nextID
    rcases List.mem_append.mp hnew with hold | hnew
    · have hlt := h.ids new hold
      omega
    · rw [List.mem_singleton.mp hnew]
      omega
  · intro new hnew
    rw [hrows] at hnew
    rcases List.mem_append.mp hnew with hold | hnew
    · exact h.attempts new hold
    · rw [List.mem_singleton.mp hnew, hid]
      exact (h.count_next).trans_le (Nat.zero_le _)
  · intro claim hclaim
    have hlt := h.claimed claim hclaim
    show claim.1 < store.nextID
    omega

theorem Claims.claim (h : Claims w) {hash : List UInt8} {row : ChallengeRow}
    (hrow : w.store.challenges.find? (MfaStore.claimable hash mfaAttemptLimit now) = some row) :
    Claims { store := (w.store.ClaimMFAChallenge hash mfaAttemptLimit now).2
             history := w.history ++ [⟨row.id, now, false, none, false, false⟩] } := by
  have hmem := List.mem_of_find?_eq_some hrow
  have hclaimable := List.find?_some hrow
  have hfree : row.attempts < mfaAttemptLimit := by
    simp only [MfaStore.claimable, Bool.and_eq_true, decide_eq_true_eq] at hclaimable
    exact hclaimable.2
  have hclaims : claims { store := (w.store.ClaimMFAChallenge hash mfaAttemptLimit now).2
                          history := w.history ++ [⟨row.id, now, false, none, false, false⟩] } =
      claims w ++ [(row.id, now)] := by
    simp [claims]
  have hcount : ∀ c, claimCount { store := (w.store.ClaimMFAChallenge hash mfaAttemptLimit now).2
                                  history := w.history ++ [⟨row.id, now, false, none, false, false⟩] } c =
      claimCount w c + if row.id = c then 1 else 0 := by
    intro c
    rw [claimCount, hclaims, List.countP_append, claimCount, List.countP_singleton]
    simp
  refine ⟨?_, ?_, ?_, ?_, ?_⟩
  · refine nodup_keys_map h.keys fun _ _ => ?_
    split_ifs <;> rfl
  · intro new hnew
    obtain ⟨old, hold, rfl⟩ := List.mem_map.mp hnew
    have hid := h.ids old hold
    split_ifs <;> exact hid
  · intro new hnew
    rw [hcount]
    obtain ⟨old, hold, rfl⟩ := List.mem_map.mp hnew
    have hattempts := h.attempts old hold
    by_cases hid : row.id = old.id
    · -- the claimed row is the only one with its identifier, and its counter has moved
      obtain rfl := List.inj_on_of_nodup_map h.keys hmem hold hid
      simp only [hclaimable, if_true]
      omega
    · have hsame : ∀ b : Bool, (if b then { old with attempts := old.attempts + 1 } else old).id =
          old.id := fun b => by cases b <;> rfl
      rw [hsame, if_neg hid]
      split_ifs
      · show claimCount w old.id + 0 ≤ old.attempts + 1
        omega
      · exact hattempts
  · intro c
    rw [hcount]
    by_cases hid : row.id = c
    · subst hid
      have hattempts := h.attempts row hmem
      rw [if_pos rfl]
      omega
    · rw [if_neg hid]
      exact h.bounded c
  · intro claim hclaim
    rw [hclaims] at hclaim
    rcases List.mem_append.mp hclaim with hold | hnew
    · exact h.claimed claim hold
    · rw [List.mem_singleton.mp hnew]
      exact h.ids row hmem

/-- Every step keeps it. -/
theorem Claims.step (h : Claims w) (heffect : AuthEffect now w call w' call') : Claims w' := by
  cases heffect with
  | quiet hquiet =>
    refine h.of_challenges hquiet.challenges hquiet.nextID.ge ?_
    rw [claims, hquiet.history]
    rfl
  | swept =>
    refine h.of_rows (h.keys.sublist (List.filter_sublist.map _)) ?_ le_rfl rfl
    intro row hrow
    exact ⟨row, (List.mem_filter.mp hrow).1, rfl, le_rfl⟩
  | inserted row hid hattempts hchallenges hcodes hnext => exact h.insert hid hchallenges hnext
  | claimed row hrow => exact h.claim hrow
  | checked => exact h.of_challenges rfl le_rfl (claims_note w _ fun _ => rfl)
  | spent => exact h.of_challenges rfl le_rfl (claims_note _ _ fun _ => rfl)
  | @consumed hash =>
    refine h.of_rows ?_ ?_ le_rfl (claims_note _ _ fun _ => rfl)
    · refine nodup_keys_map h.keys fun row _ => ?_
      split_ifs <;> rfl
    · intro row hrow
      obtain ⟨old, hold, rfl⟩ := List.mem_map.mp hrow
      refine ⟨old, hold, ?_⟩
      split_ifs <;> exact ⟨rfl, le_rfl⟩
  | session hcall hquiet =>
    exact h.of_challenges hquiet.challenges hquiet.nextID.ge (claims_note _ _ fun _ => rfl)
  | dropped hchallenges hcodes hnext => exact h.of_challenges hchallenges hnext.ge rfl
  | replaced hchallenges hcodes hnext =>
    exact h.of_challenges hchallenges (by show _ ≤ _; rw [hnext]; omega) rfl

/-! ## Claims after a state -/

/-- What has been claimed of a challenge since a state in which its row was `row`, the
log of claims then having had length `n`. -/
structure Since (row : ChallengeRow) (n : Nat) (w : AuthWorld) : Prop where
  length : n ≤ (claims w).length
  id : row.id < w.store.nextID
  rows : ∀ other ∈ w.store.challenges, other.id = row.id →
    other.expiresAt = row.expiresAt ∧ (other.consumedAt = none → row.consumedAt = none)
  late : ∀ claim ∈ (claims w).drop n, claim.1 = row.id →
    claim.2 < row.expiresAt ∧ row.consumedAt = none

variable {row : ChallengeRow} {n : Nat}

/-- A step without a new claim, that leaves no challenge unconsumed that was consumed. -/
theorem Since.of_rows (h : Since row n w)
    (hrows : ∀ other ∈ w'.store.challenges, other.id = row.id → ∃ old ∈ w.store.challenges,
      old.id = row.id ∧ other.expiresAt = old.expiresAt ∧
        (other.consumedAt = none → old.consumedAt = none))
    (hnext : w.store.nextID ≤ w'.store.nextID) (hclaims : claims w' = claims w) :
    Since row n w' := by
  refine ⟨hclaims ▸ h.length, h.id.trans_le hnext, ?_, hclaims ▸ h.late⟩
  intro other hother hid
  obtain ⟨old, hold, holdid, hexpires, hconsumed⟩ := hrows other hother hid
  obtain ⟨hexpires', hconsumed'⟩ := h.rows old hold holdid
  exact ⟨hexpires.trans hexpires', fun hnone => hconsumed' (hconsumed hnone)⟩

theorem Since.of_challenges (h : Since row n w) (hrows : w'.store.challenges = w.store.challenges)
    (hnext : w.store.nextID ≤ w'.store.nextID) (hclaims : claims w' = claims w) :
    Since row n w' :=
  h.of_rows (fun other hother hid => ⟨other, hrows ▸ hother, hid, rfl, fun hnone => hnone⟩) hnext hclaims

theorem Since.claim (h : Since row n w) {hash : List UInt8} {found : ChallengeRow}
    (hfound : w.store.challenges.find? (MfaStore.claimable hash mfaAttemptLimit now) =
      some found) :
    Since row n { store := (w.store.ClaimMFAChallenge hash mfaAttemptLimit now).2
                  history := w.history ++ [⟨found.id, now, false, none, false, false⟩] } := by
  have hclaims : claims { store := (w.store.ClaimMFAChallenge hash mfaAttemptLimit now).2
                          history := w.history ++ [⟨found.id, now, false, none, false, false⟩] } =
      claims w ++ [(found.id, now)] := by
    simp [claims]
  refine ⟨?_, h.id, ?_, ?_⟩
  · rw [hclaims, List.length_append]
    exact h.length.trans (Nat.le_add_right _ _)
  · intro other hother hid
    obtain ⟨old, hold, rfl⟩ := List.mem_map.mp hother
    have holdid : old.id = row.id := by
      rw [← hid]
      split_ifs <;> rfl
    obtain ⟨hexpires, hconsumed⟩ := h.rows old hold holdid
    split_ifs <;> exact ⟨hexpires, hconsumed⟩
  · intro claim hclaim hid
    rw [hclaims, List.drop_append_of_le_length h.length] at hclaim
    rcases List.mem_append.mp hclaim with hold | hnew
    · exact h.late claim hold hid
    · -- the claimed row was claimable, so it was neither expired nor consumed
      obtain rfl := List.mem_singleton.mp hnew
      have hclaimable := List.find?_some hfound
      simp only [MfaStore.claimable, Bool.and_eq_true, decide_eq_true_eq,
        Option.isNone_iff_eq_none] at hclaimable
      obtain ⟨hexpires, hconsumed⟩ := h.rows found (List.mem_of_find?_eq_some hfound) hid
      exact ⟨hexpires ▸ hclaimable.1.1.2, hconsumed hclaimable.1.2⟩

/-- Every step keeps it. -/
theorem Since.step (h : Since row n w) (heffect : AuthEffect now w call w' call') :
    Since row n w' := by
  cases heffect with
  | quiet hquiet =>
    refine h.of_challenges hquiet.challenges hquiet.nextID.ge ?_
    rw [claims, hquiet.history]
    rfl
  | swept =>
    refine h.of_rows ?_ le_rfl rfl
    intro other hother hid
    exact ⟨other, (List.mem_filter.mp hother).1, hid, rfl, fun hnone => hnone⟩
  | inserted new hnew hattempts hchallenges hcodes hnext =>
    refine h.of_rows ?_ (by show _ ≤ _; rw [hnext]; omega) rfl
    intro other hother hid
    rw [hchallenges] at hother
    rcases List.mem_append.mp hother with hold | hother
    · exact ⟨other, hold, hid, rfl, fun hnone => hnone⟩
    · -- a new challenge has an identifier of its own
      obtain rfl := List.mem_singleton.mp hother
      have hlt := h.id
      omega
  | claimed found hfound => exact h.claim hfound
  | checked => exact h.of_challenges rfl le_rfl (claims_note w _ fun _ => rfl)
  | spent => exact h.of_challenges rfl le_rfl (claims_note _ _ fun _ => rfl)
  | consumed =>
    refine h.of_rows ?_ le_rfl (claims_note _ _ fun _ => rfl)
    intro other hother hid
    obtain ⟨old, hold, rfl⟩ := List.mem_map.mp hother
    split_ifs at hid ⊢
    · exact ⟨old, hold, hid, rfl, fun hnone => absurd hnone (by simp)⟩
    · exact ⟨old, hold, hid, rfl, fun hnone => hnone⟩
  | session hcall hquiet =>
    exact h.of_challenges hquiet.challenges hquiet.nextID.ge (claims_note _ _ fun _ => rfl)
  | dropped hchallenges hcodes hnext => exact h.of_challenges hchallenges hnext.ge rfl
  | replaced hchallenges hcodes hnext =>
    exact h.of_challenges hchallenges (by show _ ≤ _; rw [hnext]; omega) rfl

/-! ## Recovery codes -/

/-- How many calls have spent a recovery code. -/
def spentCount (w : AuthWorld) (id : Nat) : Nat :=
  w.history.countP fun entry => entry.spent == some id

/-- What holds of the recovery codes: a spent one is not there unused. -/
structure Codes (w : AuthWorld) : Prop where
  keys : (w.store.recoveryCodes.map (·.id)).Nodup
  ids : ∀ row ∈ w.store.recoveryCodes, row.id < w.store.nextID
  once : ∀ id, spentCount w id ≤ 1
  spent : ∀ id, 0 < spentCount w id → id < w.store.nextID ∧
    ∀ row ∈ w.store.recoveryCodes, row.id = id → row.usedAt.isSome

/-- A step that spends no code, and whose codes are old ones or have new identifiers. -/
theorem Codes.of_rows (h : Codes w) (hkeys : (w'.store.recoveryCodes.map (·.id)).Nodup)
    (hids : ∀ row ∈ w'.store.recoveryCodes, row.id < w'.store.nextID)
    (hrows : ∀ row ∈ w'.store.recoveryCodes, row ∈ w.store.recoveryCodes ∨
      w.store.nextID ≤ row.id)
    (hnext : w.store.nextID ≤ w'.store.nextID)
    (hcount : ∀ id, spentCount w' id = spentCount w id) : Codes w' := by
  refine ⟨hkeys, hids, fun id => (hcount id).trans_le (h.once id), fun id hid => ?_⟩
  rw [hcount] at hid
  obtain ⟨hlt, hused⟩ := h.spent id hid
  refine ⟨hlt.trans_le hnext, fun row hrow hrowid => ?_⟩
  rcases hrows row hrow with hold | hnew
  · exact hused row hold hrowid
  · omega

theorem Codes.of_codes (h : Codes w) (hrows : w'.store.recoveryCodes = w.store.recoveryCodes)
    (hnext : w.store.nextID ≤ w'.store.nextID)
    (hcount : ∀ id, spentCount w' id = spentCount w id) : Codes w' :=
  h.of_rows (hrows ▸ h.keys) (fun row hrow => (h.ids row (hrows ▸ hrow)).trans_le hnext)
    (fun _ hrow => .inl (hrows ▸ hrow)) hnext hcount

/-- The codes of an account are replaced. -/
theorem Codes.replace (h : Codes w) {store : MfaStore} {userID : Uuid}
    {hashes : List (List UInt8)}
    (hcodes : store.recoveryCodes = w.store.recoveryCodes.filter (·.userID != userID) ++
      hashes.mapIdx fun i codeHash => ⟨w.store.nextID + i, userID, codeHash, none⟩)
    (hnext : store.nextID = w.store.nextID + hashes.length) : Codes { w with store } := by
  set kept := w.store.recoveryCodes.filter (·.userID != userID)
  set new : List RecoveryRow :=
    hashes.mapIdx fun i codeHash => ⟨w.store.nextID + i, userID, codeHash, none⟩
  have hkept : ∀ row ∈ kept, row ∈ w.store.recoveryCodes := fun row hrow =>
    (List.mem_filter.mp hrow).1
  have hnewIDs : new.map (·.id) = List.range' w.store.nextID hashes.length :=
    List.ext_getElem (by simp [new]) fun i _ _ => by simp [new]
  have hrange : ∀ row ∈ new, w.store.nextID ≤ row.id ∧
      row.id < w.store.nextID + hashes.length := by
    intro row hrow
    have hid : row.id ∈ List.range' w.store.nextID hashes.length :=
      hnewIDs ▸ List.mem_map_of_mem hrow
    simpa [List.mem_range'_1] using hid
  refine h.of_rows ?_ ?_ ?_ ?_ fun _ => rfl
  · show (store.recoveryCodes.map (·.id)).Nodup
    rw [hcodes, List.map_append, List.nodup_append]
    refine ⟨h.keys.sublist (List.filter_sublist.map _), hnewIDs ▸ List.nodup_range', ?_⟩
    intro a ha b hb
    obtain ⟨old, hold, rfl⟩ := List.mem_map.mp ha
    obtain ⟨row, hrow, rfl⟩ := List.mem_map.mp hb
    have hlt := h.ids old (hkept old hold)
    have hle := (hrange row hrow).1
    omega
  · intro row hrow
    show row.id < store.nextID
    rw [hcodes] at hrow
    rcases List.mem_append.mp hrow with hold | hrow
    · have hlt := h.ids row (hkept row hold)
      omega
    · have hlt := (hrange row hrow).2
      omega
  · intro row hrow
    rw [hcodes] at hrow
    rcases List.mem_append.mp hrow with hold | hrow
    · exact .inl (hkept row hold)
    · exact .inr (hrange row hrow).1
  · show w.store.nextID ≤ store.nextID
    omega

/-- A note that spends no code. -/
theorem spentCount_note (w : AuthWorld) (k : Nat) {set : Claimed → Claimed}
    (hset : ∀ entry, (set entry).spent = entry.spent) (id : Nat) :
    spentCount (w.note k set) id = spentCount w id := by
  refine countP_modify_of_eq (fun entry => ?_) w.history k
  rw [hset]

/-- The spent code was unused, so no call has spent it before. -/
theorem Codes.spend (h : Codes w) {userID : Uuid} {codeHash : List UInt8} {row : RecoveryRow}
    {k : Nat} (hrow : w.store.recoveryCodes.find? (MfaStore.spendable userID codeHash) = some row) :
    Codes (AuthWorld.note { w with store := (w.store.SpendRecoveryCode userID codeHash now).2 } k
      fun entry => { entry with spent := some row.id }) := by
  have hmem := List.mem_of_find?_eq_some hrow
  have hspendable := List.find?_some hrow
  have hunused : row.usedAt = none := by
    simp only [MfaStore.spendable, Bool.and_eq_true, Option.isNone_iff_eq_none] at hspendable
    exact hspendable.2
  have hzero : spentCount w row.id = 0 := by
    by_contra hspent
    have hused := (h.spent row.id (by omega)).2 row hmem rfl
    rw [hunused] at hused
    exact absurd hused (by decide)
  set w' := AuthWorld.note { w with store := (w.store.SpendRecoveryCode userID codeHash now).2 } k
      fun entry => { entry with spent := some row.id }
  have hcount : ∀ id, spentCount w' id ≤ spentCount w id + if id = row.id then 1 else 0 := by
    intro id
    show (w.history.modify k _).countP _ ≤ w.history.countP _ + _
    cases hk : w.history[k]? with
    | none =>
      rw [List.modify_eq_self (List.getElem?_eq_none_iff.mp hk)]
      omega
    | some entry =>
      have hmodify := countP_modify (fun entry : Claimed => entry.spent == some id)
        (fun entry => { entry with spent := some row.id }) hk
      by_cases hid : id = row.id
      · rw [if_pos hid]
        split_ifs at hmodify <;> omega
      · have hne : ¬ (some row.id == some id) = true := by simpa using fun heq => hid heq.symm
        rw [if_neg hne] at hmodify
        omega
  refine ⟨?_, ?_, ?_, ?_⟩
  · refine nodup_keys_map h.keys fun _ _ => ?_
    split_ifs <;> rfl
  · intro new hnew
    obtain ⟨old, hold, rfl⟩ := List.mem_map.mp hnew
    have hid := h.ids old hold
    split_ifs <;> exact hid
  · intro id
    have hle := hcount id
    have honce := h.once id
    by_cases hid : id = row.id
    · subst hid
      rw [if_pos rfl] at hle
      omega
    · rw [if_neg hid] at hle
      omega
  · intro id hspent
    have hle := hcount id
    by_cases hid : id = row.id
    · subst hid
      refine ⟨h.ids row hmem, fun new hnew hnewid => ?_⟩
      obtain ⟨old, hold, rfl⟩ := List.mem_map.mp hnew
      have holdid : old.id = row.id := by
        rw [← hnewid]
        split_ifs <;> rfl
      obtain rfl := List.inj_on_of_nodup_map h.keys hold hmem holdid
      rw [if_pos hspendable]
      rfl
    · rw [if_neg hid] at hle
      obtain ⟨hlt, hused⟩ := h.spent id (by omega)
      refine ⟨hlt, fun new hnew hnewid => ?_⟩
      obtain ⟨old, hold, rfl⟩ := List.mem_map.mp hnew
      split_ifs at hnewid ⊢
      · rfl
      · exact hused old hold hnewid

/-- Every step keeps it. -/
theorem Codes.step (h : Codes w) (heffect : AuthEffect now w call w' call') : Codes w' := by
  cases heffect with
  | quiet hquiet =>
    refine h.of_codes hquiet.recoveryCodes hquiet.nextID.ge fun id => ?_
    rw [spentCount, hquiet.history]
    rfl
  | swept => exact h.of_codes rfl le_rfl fun _ => rfl
  | inserted row hid hattempts hchallenges hcodes hnext =>
    exact h.of_codes hcodes (by show _ ≤ _; rw [hnext]; omega) fun _ => rfl
  | claimed => exact h.of_codes rfl le_rfl fun id => by simp [spentCount]
  | checked => exact h.of_codes rfl le_rfl (spentCount_note w _ fun _ => rfl)
  | spent row hrow => exact h.spend hrow
  | consumed => exact h.of_codes rfl le_rfl (spentCount_note _ _ fun _ => rfl)
  | session hcall hquiet =>
    exact h.of_codes hquiet.recoveryCodes hquiet.nextID.ge (spentCount_note _ _ fun _ => rfl)
  | @dropped store userID _ hchallenges hcodes hnext =>
    have hkept : ∀ row ∈ store.recoveryCodes, row ∈ w.store.recoveryCodes := fun row hrow =>
      (List.mem_filter.mp (hcodes ▸ hrow)).1
    refine h.of_rows ?_ ?_ (fun row hrow => .inl (hkept row hrow)) hnext.ge fun _ => rfl
    · show (store.recoveryCodes.map (·.id)).Nodup
      rw [hcodes]
      exact h.keys.sublist (List.filter_sublist.map _)
    · intro row hrow
      show row.id < store.nextID
      rw [hnext]
      exact h.ids row (hkept row hrow)
  | replaced hchallenges hcodes hnext => exact h.replace hcodes hnext

/-! ## Entries -/

/-- An entry stays where it is, and what is noted of it stays. -/
theorem AuthEffect.keeps (heffect : AuthEffect now w call w' call') {k : Nat} {entry : Claimed}
    (hentry : w.history[k]? = some entry) :
    ∃ entry', w'.history[k]? = some entry' ∧ (entry.consumed → entry'.consumed) := by
  have hnote : ∀ (v : AuthWorld) (j : Nat) (set : Claimed → Claimed), v.history = w.history →
      (∀ e, e.consumed → (set e).consumed) →
      ∃ entry', (v.note j set).history[k]? = some entry' ∧ (entry.consumed → entry'.consumed) := by
    intro v j set hv hset
    refine ⟨if j = k then set entry else entry, ?_, fun hconsumed => ?_⟩
    · show (v.history.modify j set)[k]? = _
      rw [List.getElem?_modify, hv, hentry]
      rfl
    · split_ifs
      · exact hset entry hconsumed
      · exact hconsumed
  cases heffect with
  | quiet hquiet => exact ⟨entry, hquiet.history ▸ hentry, fun hconsumed => hconsumed⟩
  | swept | inserted | dropped | replaced => exact ⟨entry, hentry, fun hconsumed => hconsumed⟩
  | claimed =>
    refine ⟨entry, ?_, fun hconsumed => hconsumed⟩
    rw [List.getElem?_append_left (List.getElem?_eq_some_iff.mp hentry).1]
    exact hentry
  | checked | spent | session => exact hnote _ _ _ rfl fun _ hconsumed => hconsumed
  | consumed => exact hnote _ _ _ rfl fun _ _ => rfl

/-- The history does not shrink. -/
theorem AuthEffect.length_le (heffect : AuthEffect now w call w' call') :
    w.history.length ≤ w'.history.length := by
  by_contra hlt
  have hk : w'.history.length < w.history.length := by omega
  obtain ⟨entry', hentry', -⟩ := heffect.keeps (List.getElem?_eq_getElem hk)
  have hbound := (List.getElem?_eq_some_iff.mp hentry').1
  omega

/-- A call has no entry, its old one, or the new one. -/
theorem AuthEffect.entry (heffect : AuthEffect now w call w' call') :
    call'.entry = none ∨ call'.entry = call.entry ∨
      call'.entry = some w.history.length ∧ w.history.length < w'.history.length := by
  cases heffect with
  | quiet hquiet hentry => exact hentry.imp_right Or.inl
  | swept hentry | inserted _ _ _ _ _ _ hentry | dropped _ _ _ hentry | replaced _ _ _ hentry =>
    exact .inl hentry
  | session _ _ hentry => exact .inl hentry
  | claimed => exact .inr (.inr ⟨rfl, by simp⟩)
  | checked hcall hentry => exact hentry.imp_right fun h => .inl (h.trans hcall.symm)
  | spent _ _ hcall hentry => exact .inr (.inl (hentry.trans hcall.symm))
  | consumed hcall =>
    subst hcall
    exact .inr (.inl rfl)

end

/-! ## Runs -/

section

variable {cfg : AuthConfig} {init s t : Pool AuthWorld AuthCall} {as bs : List (ℕ × AuthAction)}

/-- What every effect keeps of the shared state holds along every run. -/
theorem run_effects {I : AuthWorld → Prop}
    (hI : ∀ now w call w' call', I w → AuthEffect now w call w' call' → I w') (hs : I s.shared)
    (hrun : (authCalls cfg).machine.run s as = some t) : I t.shared := by
  refine Machine.run_invariant _ (I := fun s : Pool AuthWorld AuthCall => I s.shared) ?_ hs hrun
  rintro s ⟨i, a⟩ t hs hstep
  obtain ⟨call', hstep, -⟩ := Process.step_cases hstep
  obtain ⟨now, heffect⟩ := authCalls_effect hstep
  exact hI now _ _ _ _ hs heffect

/-- Every call writes on an entry of its own. -/
theorem entries_distinct (hinit : Initial init)
    (hrun : (authCalls cfg).machine.run init as = some t) {i j k : Nat}
    (hi : (t.locals i).entry = some k) (hj : (t.locals j).entry = some k) : i = j := by
  have hinv : (∀ i k, (t.locals i).entry = some k → k < t.shared.history.length) ∧
      ∀ i j k, (t.locals i).entry = some k → (t.locals j).entry = some k → i = j := by
    refine Machine.run_invariant _ (I := fun s : Pool AuthWorld AuthCall =>
      (∀ i k, (s.locals i).entry = some k → k < s.shared.history.length) ∧
      ∀ i j k, (s.locals i).entry = some k → (s.locals j).entry = some k → i = j) ?_ ?_ hrun
    · rintro s ⟨i, a⟩ t ⟨hbound, hdistinct⟩ hstep
      obtain ⟨call', hstep, hi, hothers⟩ := Process.step_cases hstep
      obtain ⟨now, heffect⟩ := authCalls_effect hstep
      have hlength := heffect.length_le
      -- the entry of the process that moves is its old one or a new one
      have hmoved : ∀ k, (t.locals i).entry = some k → (s.locals i).entry = some k ∨
          k = s.shared.history.length ∧ s.shared.history.length < t.shared.history.length := by
        intro k hk
        rw [hi] at hk
        rcases heffect.entry with hnone | hsame | ⟨hnew, hgrow⟩
        · rw [hnone] at hk
          exact absurd hk (by simp)
        · exact .inl (hsame ▸ hk)
        · exact .inr ⟨by simpa using hk.symm.trans hnew, hgrow⟩
      have hother : ∀ j k, j ≠ i → (t.locals j).entry = some k → (s.locals j).entry = some k :=
        fun j k hj hk => hothers j hj ▸ hk
      refine ⟨fun j k hk => ?_, fun j l k hj hl => ?_⟩
      · by_cases hji : j = i
        · subst hji
          rcases hmoved k hk with hold | ⟨hnew, hgrow⟩
          · exact (hbound j k hold).trans_le hlength
          · omega
        · exact (hbound j k (hother j k hji hk)).trans_le hlength
      · by_cases hji : j = i <;> by_cases hli : l = i
        · exact hji.trans hli.symm
        · subst hji
          have hl := hother l k hli hl
          rcases hmoved k hj with hold | ⟨hnew, -⟩
          · exact hdistinct j l k hold hl
          · have hlt := hbound l k hl
            omega
        · subst hli
          have hj := hother j k hji hj
          rcases hmoved k hl with hold | ⟨hnew, -⟩
          · exact hdistinct j l k hj hold
          · have hlt := hbound j k hj
            omega
        · exact hdistinct j l k (hother j k hji hj) (hother l k hli hl)
    · have hnone : ∀ i k, (init.locals i).entry ≠ some k := by
        intro i k
        rw [hinit.idle i]
        simp [AuthCall.entry]
      exact ⟨fun i k hk => absurd hk (hnone i k), fun i j k hk => absurd hk (hnone i k)⟩
  exact hinv.2 i j k hi hj

theorem Initial.claims (h : Initial init) : Claims init.shared := by
  have hclaims : Properties.claims init.shared = [] := by
    rw [Properties.claims, h.history]
    rfl
  have hcount : ∀ c, claimCount init.shared c = 0 := fun c => by rw [claimCount, hclaims]; rfl
  refine ⟨h.challengeKeys, h.challengeIDs, ?_, ?_, ?_⟩
  · intro row _
    rw [hcount]
    exact Nat.zero_le _
  · intro c
    rw [hcount]
    exact Nat.zero_le _
  · rw [hclaims]
    simp

theorem Initial.codes (h : Initial init) : Codes init.shared := by
  have hcount : ∀ id, spentCount init.shared id = 0 := fun id => by
    rw [spentCount, h.history]
    rfl
  refine ⟨h.codeKeys, h.codeIDs, fun id => ?_, fun id hid => ?_⟩
  · rw [hcount]
    exact Nat.zero_le _
  · rw [hcount] at hid
    omega

/-! ## A half-session of `ann` -/

/-- `ann` has given the password. -/
def halfSession : Pool AuthWorld AuthCall where
  shared.store := { enrolledStore with
    challenges := [⟨1, default, lit "half", 0, 300 * second, none⟩]
    nextID := 2 }
  locals _ := .idle

theorem halfSession_initial : Initial halfSession where
  idle _ := rfl
  history := rfl
  challengeKeys := by decide
  challengeIDs := by decide
  codeKeys := by decide
  codeIDs := by decide

/-- A browser presents the half-session with a code that fits. -/
def verifyHalf (token : String) : AuthRequest :=
  .verify (lit "half") (lit "000000") ⟨[], [], [], lit token, lit token⟩

/-- One call from its start to its end. -/
def oneCall : List (ℕ × AuthAction) :=
  (0, .start (verifyHalf "one")) :: List.replicate 5 (0, .next 0)

theorem oneCall_runs : ∃ t, (authCalls plainConfig).machine.run halfSession oneCall = some t :=
  Option.isSome_iff_exists.mp (by rfl)

/-! ## Guesses -/

/-- Guesses are bounded.  In every run, at most `mfaAttemptLimit` calls come to the code
check with one challenge, every claim made after a state finds the challenge's row of that
state unconsumed and not yet expired, and at most one call spends a recovery code. -/
theorem guesses_bounded (hinit : Initial init)
    (hbefore : (authCalls cfg).machine.run init as = some s)
    (hafter : (authCalls cfg).machine.run s bs = some t) :
    (∀ c, t.shared.history.countP (fun entry => entry.challenge == c && entry.checked) ≤
      mfaAttemptLimit) ∧
    (∀ row ∈ s.shared.store.challenges,
      ∀ entry ∈ t.shared.history.drop s.shared.history.length, entry.challenge = row.id →
        entry.claimedAt < row.expiresAt ∧ row.consumedAt = none) ∧
    ∀ id, t.shared.history.countP (fun entry => entry.spent == some id) ≤ 1 := by
  have hclaims : Claims s.shared :=
    run_effects (fun _ _ _ _ _ h => h.step) hinit.claims hbefore
  have hclaims' : Claims t.shared := run_effects (fun _ _ _ _ _ h => h.step) hclaims hafter
  refine ⟨fun c => ?_, ?_, ?_⟩
  · have hcount : claimCount t.shared c =
        t.shared.history.countP fun entry => entry.challenge == c := by
      rw [claimCount, claims, List.countP_map]
      rfl
    refine le_trans (List.countP_mono_left fun entry _ hentry => ?_)
      (hcount.symm.trans_le (hclaims'.bounded c))
    exact (Bool.and_eq_true_iff.mp hentry).1
  · intro row hrow entry hentry hid
    have hstart : Since row (claims s.shared).length s.shared := by
      refine ⟨le_rfl, hclaims.ids row hrow, ?_, by simp⟩
      intro other hother hotherid
      obtain rfl := List.inj_on_of_nodup_map hclaims.keys hother hrow hotherid
      exact ⟨rfl, fun hnone => hnone⟩
    have hsince := run_effects (fun _ _ _ _ _ h => h.step) hstart hafter
    refine hsince.late (entry.challenge, entry.claimedAt) ?_ hid
    rw [claims, claims, List.length_map, ← List.map_drop]
    exact List.mem_map_of_mem hentry
  · have hcodes : Codes t.shared :=
      run_effects (fun _ _ _ _ _ h => h.step)
        (run_effects (fun _ _ _ _ _ h => h.step) hinit.codes hbefore) hafter
    exact hcodes.once

theorem guesses_bounded_oneCall :
    ∃ s t, (authCalls plainConfig).machine.run halfSession [] = some s ∧
      (authCalls plainConfig).machine.run s oneCall = some t ∧
      (∀ c, t.shared.history.countP (fun entry => entry.challenge == c && entry.checked) ≤
        mfaAttemptLimit) ∧
      (∀ row ∈ s.shared.store.challenges,
        ∀ entry ∈ t.shared.history.drop s.shared.history.length, entry.challenge = row.id →
          entry.claimedAt < row.expiresAt ∧ row.consumedAt = none) ∧
      ∀ id, t.shared.history.countP (fun entry => entry.spent == some id) ≤ 1 := by
  obtain ⟨t, hrun⟩ := oneCall_runs
  have hnil : (authCalls plainConfig).machine.run halfSession [] = some halfSession := rfl
  exact ⟨halfSession, t, hnil, hrun, guesses_bounded halfSession_initial hnil hrun⟩

/-! ## Sessions -/

/-- Where a process stands: its entry is there, and past `ConsumeMFAChallenge` it is consumed. -/
structure Placed (w : AuthWorld) (call : AuthCall) : Prop where
  entry : ∀ k, call.entry = some k → k < w.history.length
  retired : ∀ k, call.retired = some k → ∃ entry, w.history[k]? = some entry ∧ entry.consumed

/-- A session comes after a consumed challenge, and a challenge is consumed by one call. -/
structure Once (history : List Claimed) : Prop where
  session : ∀ entry ∈ history, entry.session → entry.consumed
  consumed : ∀ c, history.countP (fun entry => entry.challenge == c && entry.consumed) ≤ 1

/-- A call that comes to `ConsumeMFAChallenge` finds that no other call has run it with the
same challenge. -/
def Unconsumed (s : Pool AuthWorld AuthCall) (a : ℕ × AuthAction) : Prop :=
  match s.locals a.1 with
  | .consume k _ _ _ =>
    ∀ entry, s.shared.history[k]? = some entry →
      ∀ other ∈ s.shared.history, other.challenge = entry.challenge → other.consumed = false
  | _ => True

/-- The processes that do not move stay placed. -/
theorem Placed.other {now : Instant} {w w' : AuthWorld} {call call' other : AuthCall}
    (h : Placed w other) (heffect : AuthEffect now w call w' call') : Placed w' other := by
  refine ⟨fun k hk => (h.entry k hk).trans_le heffect.length_le, fun k hk => ?_⟩
  obtain ⟨entry, hentry, hconsumed⟩ := h.retired k hk
  obtain ⟨entry', hentry', hkeeps⟩ := heffect.keeps hentry
  exact ⟨entry', hentry', hkeeps hconsumed⟩

/-- So does the one that moves. -/
theorem Placed.own {now : Instant} {w w' : AuthWorld} {call call' : AuthCall} (h : Placed w call)
    (heffect : AuthEffect now w call w' call') : Placed w' call' := by
  have hstays := h.other heffect
  refine ⟨fun k hk => ?_, fun k hk => ?_⟩
  · rcases heffect.entry with hnone | hsame | ⟨hnew, hgrow⟩
    · rw [hnone] at hk
      exact absurd hk (by simp)
    · exact hstays.entry k (hsame ▸ hk)
    · obtain rfl : w.history.length = k := by simpa using hnew.symm.trans hk
      exact hgrow
  · have hretired : call'.retired = none ∨ call'.retired = call.retired →
        ∃ entry, w'.history[k]? = some entry ∧ entry.consumed := by
      rintro (hnone | hsame)
      · rw [hnone] at hk
        exact absurd hk (by simp)
      · exact hstays.retired k (hsame ▸ hk)
    cases heffect with
    | quiet _ _ hret => exact hretired hret
    | swept _ hret | inserted _ _ _ _ _ _ _ hret => exact hretired (.inl hret)
    | checked _ _ hret | spent _ _ _ _ hret | session _ _ _ hret => exact hretired (.inl hret)
    | dropped _ _ _ _ hret | replaced _ _ _ _ hret => exact hretired (.inl hret)
    | claimed => exact hretired (.inl rfl)
    | @consumed hash userID client j hcall =>
      subst hcall
      obtain rfl : j = k := by simpa [AuthCall.retired] using hk
      have hj : j < w.history.length := h.entry j rfl
      refine ⟨{ w.history[j] with consumed := true }, ?_, rfl⟩
      show (w.history.modify j _)[j]? = _
      rw [List.getElem?_modify_eq, List.getElem?_eq_getElem hj]
      rfl

section

variable {history : List Claimed} {k : Nat}

/-- A note that says nothing of sessions and consumption. -/
theorem Once.note (h : Once history) {set : Claimed → Claimed}
    (hchallenge : ∀ entry, (set entry).challenge = entry.challenge)
    (hconsumed : ∀ entry, (set entry).consumed = entry.consumed)
    (hsession : ∀ entry, (set entry).session = entry.session) : Once (history.modify k set) := by
  refine ⟨fun entry hentry hses => ?_, fun c => ?_⟩
  · rcases mem_modify hentry with hold | ⟨old, hold, rfl⟩
    · exact h.session entry hold hses
    · rw [hconsumed]
      exact h.session old (List.mem_of_getElem? hold) (hsession old ▸ hses)
  · rw [countP_modify_of_eq fun entry => by rw [hchallenge, hconsumed]]
    exact h.consumed c

/-- The first consumption of a challenge. -/
theorem Once.consume (h : Once history)
    (hfirst : ∀ entry, history[k]? = some entry →
      ∀ other ∈ history, other.challenge = entry.challenge → other.consumed = false) :
    Once (history.modify k fun entry => { entry with consumed := true }) := by
  refine ⟨fun entry hentry hses => ?_, fun c => ?_⟩
  · rcases mem_modify hentry with hold | ⟨old, -, rfl⟩
    · exact h.session entry hold hses
    · rfl
  · cases hk : history[k]? with
    | none =>
      rw [List.modify_eq_self (List.getElem?_eq_none_iff.mp hk)]
      exact h.consumed c
    | some entry =>
      have hmodify := countP_modify (fun entry : Claimed => entry.challenge == c && entry.consumed)
        (fun entry => { entry with consumed := true }) hk
      by_cases hc : entry.challenge = c
      · -- before the step no entry of the challenge is consumed
        have hzero : history.countP (fun entry => entry.challenge == c && entry.consumed) = 0 := by
          refine List.countP_eq_zero.mpr fun other hother htrue => ?_
          obtain ⟨hsame, hconsumed⟩ := Bool.and_eq_true_iff.mp htrue
          have hfalse := hfirst entry hk other hother ((beq_iff_eq.mp hsame).trans hc.symm)
          rw [hfalse] at hconsumed
          exact absurd hconsumed (by decide)
        split_ifs at hmodify <;> omega
      · have hne : ∀ b : Bool, ¬ (entry.challenge == c && b) = true := by simp [hc]
        rw [if_neg (hne _), if_neg (hne _)] at hmodify
        have hbound := h.consumed c
        omega

/-- A session of a call past `ConsumeMFAChallenge`. -/
theorem Once.mint (h : Once history)
    (hretired : ∃ entry, history[k]? = some entry ∧ entry.consumed) :
    Once (history.modify k fun entry => { entry with session := true }) := by
  refine ⟨fun entry hentry hses => ?_, fun c => ?_⟩
  · rcases mem_modify hentry with hold | ⟨old, hold, rfl⟩
    · exact h.session entry hold hses
    · obtain ⟨entry, hentry, hconsumed⟩ := hretired
      obtain rfl : entry = old := by simpa [hentry] using hold
      exact hconsumed
  · have hcount : (history.modify k fun entry => { entry with session := true }).countP
        (fun entry => entry.challenge == c && entry.consumed) =
        history.countP fun entry => entry.challenge == c && entry.consumed := by
      refine countP_modify_of_eq (fun _ => ?_) history k
      rfl
    rw [hcount]
    exact h.consumed c

end

/-- Every step that meets the condition keeps it. -/
theorem Once.step {s : Pool AuthWorld AuthCall} {i : ℕ} {a : AuthAction} {now : Instant}
    {w' : AuthWorld} {call' : AuthCall} (h : Once s.shared.history)
    (hplaced : Placed s.shared (s.locals i)) (hfirst : Unconsumed s (i, a))
    (heffect : AuthEffect now s.shared (s.locals i) w' call') : Once w'.history := by
  cases heffect with
  | quiet hquiet => exact hquiet.history ▸ h
  | swept | inserted | dropped | replaced => exact h
  | claimed =>
    refine ⟨fun entry hentry hses => ?_, fun c => ?_⟩
    · rcases List.mem_append.mp hentry with hold | hnew
      · exact h.session entry hold hses
      · rw [List.mem_singleton.mp hnew] at hses
        exact absurd hses (by simp)
    · rw [List.countP_append, List.countP_singleton]
      simpa using h.consumed c
  | checked | spent => exact h.note (fun _ => rfl) (fun _ => rfl) fun _ => rfl
  | consumed hcall =>
    refine h.consume ?_
    simp only [Unconsumed, hcall] at hfirst
    exact hfirst
  | session hcall => exact h.mint (hplaced.retired _ hcall)

/-- One challenge, one session.  In every run in which no call comes to
`ConsumeMFAChallenge` after another has run it with the same challenge, a challenge mints
at most one session. -/
theorem one_session (hinit : Initial init)
    (hfirst : (authCalls cfg).machine.Along Unconsumed init as)
    (hrun : (authCalls cfg).machine.run init as = some t) (c : Nat) :
    t.shared.history.countP (fun entry => entry.challenge == c && entry.session) ≤ 1 := by
  have hstart : Once init.shared.history := by
    constructor <;> simp [hinit.history]
  have hplaced : ∀ i, Placed init.shared (init.locals i) := by
    intro i
    rw [hinit.idle i]
    constructor <;> simp [AuthCall.entry, AuthCall.retired]
  have hend := Process.run_locals (I := fun w : AuthWorld => Once w.history) (P := Placed) (C := Unconsumed)
    (fun s i a x l honce hplaced hfirst hstep => ?_)
    (fun s i a x l m _ _ hother hstep => ?_) ⟨hstart, hplaced⟩ hfirst hrun
  · refine le_trans (List.countP_mono_left fun entry hentry htrue => ?_) (hend.1.consumed c)
    obtain ⟨hsame, hsession⟩ := Bool.and_eq_true_iff.mp htrue
    exact Bool.and_eq_true_iff.mpr ⟨hsame, hend.1.session entry hentry hsession⟩
  · obtain ⟨now, heffect⟩ := authCalls_effect hstep
    exact ⟨honce.step hplaced hfirst heffect, hplaced.own heffect⟩
  · obtain ⟨now, heffect⟩ := authCalls_effect hstep
    exact hother.other heffect

/-- The condition of `one_session`, evaluated. -/
def unconsumed (s : Pool AuthWorld AuthCall) (a : ℕ × AuthAction) : Bool :=
  match s.locals a.1 with
  | .consume k _ _ _ =>
    match s.shared.history[k]? with
    | none => true
    | some entry => s.shared.history.all fun other =>
        other.challenge != entry.challenge || !other.consumed
  | _ => true

theorem unconsumed_imp {s : Pool AuthWorld AuthCall} {a : ℕ × AuthAction}
    (h : unconsumed s a) : Unconsumed s a := by
  unfold Unconsumed
  unfold unconsumed at h
  split at h
  · intro entry hentry other hother hsame
    rw [hentry] at h
    have hall := List.all_eq_true.mp h other hother
    simpa [hsame] using hall
  · trivial

theorem one_session_oneCall :
    ∃ t, (authCalls plainConfig).machine.run halfSession oneCall = some t ∧
      t.shared.history.countP (fun entry => entry.challenge == 1 && entry.session) ≤ 1 := by
  obtain ⟨t, hrun⟩ := oneCall_runs
  have hfirst : (authCalls plainConfig).machine.Along Unconsumed halfSession oneCall :=
    Machine.along_of_check _ (fun _ _ => unconsumed_imp) (by rfl)
  exact ⟨t, hrun, one_session halfSession_initial hfirst hrun 1⟩

/-- Two browsers present the half-session at once. -/
def twoCalls : List (ℕ × AuthAction) :=
  [(0, .start (verifyHalf "one")), (1, .start (verifyHalf "two"))] ++
    (List.replicate 5 [(0, .next 0), (1, .next 0)]).flatten

/-- Both calls come past the code check before either consumes the challenge, and
both create a session. -/
theorem two_sessions :
    ¬ ∀ (init t : Pool AuthWorld AuthCall) (as : List (ℕ × AuthAction)), Initial init →
      (authCalls plainConfig).machine.run init as = some t →
      ∀ c, t.shared.history.countP (fun entry => entry.challenge == c && entry.session) ≤ 1 := by
  intro hclaim
  have hcount : ((authCalls plainConfig).machine.run halfSession twoCalls).map
      (fun t => t.shared.history.countP fun entry => entry.challenge == 1 && entry.session) =
      some 2 := by rfl
  obtain ⟨t, hrun, htwo⟩ := Option.map_eq_some_iff.mp hcount
  have hone := hclaim halfSession t twoCalls halfSession_initial hrun 1
  omega

end

end Purels.Properties
