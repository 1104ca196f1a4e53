import Purels.Properties.ConfirmedSecret

/-!
# Confirming an enrolment that is finished

`Confirm` for an account whose factor is confirmed already.

* `LeavesFactor`: the secret, the confirmation time and the recovery codes are the same.
* `AnswersFinished`: the answer is that no enrolment is in progress, and nothing has changed.
* `Confirm_cases`: an error changes nothing, a success writes a confirmation.
* `finished_confirm`: an enrolled account never gets that answer, and a confirmation that
  succeeds replaces all its recovery codes; `finished_codes_lost` is one that does.
-/

namespace Purels.Properties

open Go Security Store Service TwoFactorService

section

variable (cfg : AuthConfig) (totpEnabled : Bool) (userID : Uuid) (code : GoString)
  (draws : Fin recoveryCodeCount → Fin 10 → UInt8) (now : Instant) (s : MfaStore)

/-- The factor of the account is the same, with its used and unused recovery codes. -/
structure LeavesFactor (t : MfaStore) : Prop where
  factor : factorOf t userID = factorOf s userID
  codes : t.recoveryCodes.filter (·.userID == userID) =
    s.recoveryCodes.filter (·.userID == userID)

/-- The confirmation finds nothing to confirm. -/
def AnswersFinished : Prop :=
  (Confirm cfg totpEnabled userID code draws now s).1 = .error .noEnrolment ∧
    LeavesFactor userID s (Confirm cfg totpEnabled userID code draws now s).2

/-- What a confirmation that succeeds leaves: a new confirmation time and other codes. -/
structure Reconfirmed (t : MfaStore) : Prop where
  factor : factorOf t userID = (factorOf s userID).map fun factor => (factor.1, some now)
  codes : (t.recoveryCodes.filter (·.userID == userID)).map (·.codeHash) =
    recoveryHashes cfg (recoveryCodes draws)

/-- A confirmation fails and changes nothing, or it succeeds and writes. -/
theorem Confirm_cases :
    (∃ e, Confirm cfg totpEnabled userID code draws now s = (.error e, s)) ∨
      (Confirm cfg totpEnabled userID code draws now s).1 = .ok (recoveryCodes draws) ∧
        Reconfirmed cfg userID draws now s
          (Confirm cfg totpEnabled userID code draws now s).2 := by
  unfold Confirm
  cases confirmable cfg totpEnabled userID code now s with
  | error e => exact .inl ⟨e, rfl⟩
  | ok secret =>
    simp only [MfaStore.ConfirmTOTP]
    split_ifs with hrow hhashes
    · exact .inl ⟨.notFound, rfl⟩
    · exact .inl ⟨.database, rfl⟩
    · refine .inr ⟨rfl, ⟨?_, codes_of_insert _ _ _⟩⟩
      have hwritten : factorOf (s.setFactor userID fun user =>
          { user with totpConfirmedAt := some now }) userID =
          (factorOf s userID).map fun factor =>
            if userID = userID then (factor.1, some now) else factor :=
        factorOf_setFactor (fun _ => rfl) (fun _ => rfl)
      simp only [if_pos] at hwritten
      exact hwritten

variable {cfg totpEnabled userID code draws now s}

/-- The secret of an enrolled account is there to be confirmed. -/
theorem confirmable_enrolled (h : Enrolled s userID) :
    confirmable cfg totpEnabled userID code now s ≠ .error .noEnrolment := by
  obtain ⟨state, hstate, henrolled⟩ := h
  have hsecret : state.secret ≠ [] := by
    rw [MFAState.Enrolled, Bool.and_eq_true, bne_iff_ne] at henrolled
    exact henrolled.2
  unfold confirmable
  rw [hstate]
  simp only [if_neg hsecret]
  split_ifs <;> simp

/-- A finished enrolment is confirmed again: its account is never told that there is nothing
to confirm, and a code that fits costs it its recovery codes. -/
theorem finished_confirm (h : Enrolled s userID) :
    ¬ AnswersFinished cfg totpEnabled userID code draws now s ∧
      ∀ codes, (Confirm cfg totpEnabled userID code draws now s).1 = .ok codes →
        Reconfirmed cfg userID draws now s
          (Confirm cfg totpEnabled userID code draws now s).2 := by
  constructor
  · rintro ⟨hanswer, -⟩
    unfold Confirm at hanswer
    have hsecret : confirmable cfg totpEnabled userID code now s ≠ .error .noEnrolment :=
      confirmable_enrolled h
    cases hconfirmable : confirmable cfg totpEnabled userID code now s with
    | error e =>
      rw [hconfirmable] at hanswer hsecret
      have heq : e = .noEnrolment := Except.error.inj hanswer
      exact hsecret (congrArg Except.error heq)
    | ok secret =>
      rw [hconfirmable] at hanswer
      simp only [MfaStore.ConfirmTOTP] at hanswer
      split_ifs at hanswer <;> cases hanswer
  · intro codes hok
    rcases Confirm_cases cfg totpEnabled userID code draws now s with ⟨e, herror⟩ | ⟨-, hwritten⟩
    · rw [herror] at hok
      cases hok
    · exact hwritten

end

/-- The codes that `ann` is given. -/
def annDraws : Fin recoveryCodeCount → Fin 10 → UInt8 := fun i j => UInt8.ofNat (i + j)

/-- A code that fits, for an account that has confirmed before. -/
theorem finished_confirm_ann :
    ¬ AnswersFinished plainConfig true default (lit "000000") annDraws 1 enrolledStore ∧
      Reconfirmed plainConfig default annDraws 1 enrolledStore
        (Confirm plainConfig true default (lit "000000") annDraws 1 enrolledStore).2 := by
  refine ⟨(finished_confirm ann_enrolled).1, ?_⟩
  exact (finished_confirm ann_enrolled).2 (recoveryCodes annDraws) (by decide)

/-- The account is enrolled, and its recovery code is gone after the confirmation. -/
theorem finished_codes_lost :
    Enrolled enrolledStore default ∧
      enrolledStore.recoveryCodes = [⟨0, default, lit "code", none⟩] ∧
      (Confirm plainConfig true default (lit "000000") annDraws 1 enrolledStore).1 =
        .ok (recoveryCodes annDraws) ∧
      lit "code" ∉ (Confirm plainConfig true default (lit "000000") annDraws 1
        enrolledStore).2.recoveryCodes.map (·.codeHash) ∧
      ¬ LeavesFactor default enrolledStore
        (Confirm plainConfig true default (lit "000000") annDraws 1 enrolledStore).2 := by
  refine ⟨ann_enrolled, rfl, by decide, by decide, fun hleaves => ?_⟩
  have hfactor := hleaves.factor
  revert hfactor
  decide

end Purels.Properties
