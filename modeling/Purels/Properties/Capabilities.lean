import Purels.Store.Authz

/-!
# The last holder of a capability

Edits of accounts and of roles in any number of concurrent transactions.

* `TxEffect` and `authz_effect`: the step lemma.
* `Guarded`, the invariant: both capabilities have a holder, the lock has at most one
  owner, and what a transaction has counted is still so.
* `capabilities_never_lost`, for every run: the capabilities are held, and a
  transaction that reports the last holder has changed nothing.
-/

namespace Purels.Properties

open Go Store AccountStore Lib

/-! ## Steps -/

/-- The scopes a transaction has counted still have a holder once it commits. -/
def Checked (db : AccountStore) : Tx → Prop
  | .check write left => ∃ passed, requiredScopes = passed ++ left ∧
      ∀ required ∈ passed, 0 < (write.apply db).holders required
  | _ => True

/-- What one step of a transaction, or of an insert, does. -/
inductive TxEffect (w : Authz) (tx : Tx) (w' : Authz) (tx' : Tx) : Prop
  | stay (hdb : w'.db = w.db) (hlocked : w'.locked = w.locked) (hinside : tx'.inside = tx.inside)
      (hchecked : Checked w.db tx → Checked w.db tx')
  | acquire (hfree : w.locked = false) (hdb : w'.db = w.db) (hlocked : w'.locked = true)
      (hchecked : Checked w.db tx')
  | release (hinside : tx.inside) (hdb : w'.db = w.db) (hafter : tx'.inside = false)
      (hchecked : Checked w.db tx')
  | commit (write : AuthzWrite) (htx : tx = .check write [])
      (hworld : w' = ⟨write.apply w.db, false⟩) (htx' : tx' = .done (.ok ()))
  | create (user : UserRow) (htx : tx = .create user)
      (hworld : w' = { w with db := { w.db with users := w.db.users ++ [user] } })
      (htx' : tx' = .done (.ok ()))

theorem txStep_effect {w w' : Authz} {tx tx' : Tx} (h : txStep w tx = some (w', tx')) :
    TxEffect w tx w' tx' := by
  cases tx with
  | idle => simp [txStep] at h
  | done res => simp [txStep] at h
  | lock request =>
    simp only [txStep] at h
    split_ifs at h with hlocked
    obtain ⟨rfl, rfl⟩ := Prod.mk.inj (Option.some.inj h)
    exact .acquire (by simpa using hlocked) rfl rfl trivial
  | update request =>
    simp only [txStep] at h
    split at h
    · obtain ⟨rfl, rfl⟩ := Prod.mk.inj (Option.some.inj h)
      exact .release rfl rfl rfl trivial
    · obtain ⟨rfl, rfl⟩ := Prod.mk.inj (Option.some.inj h)
      exact .stay rfl rfl rfl fun _ => ⟨[], rfl, by simp⟩
  | check write left =>
    cases left with
    | nil =>
      obtain ⟨rfl, rfl⟩ := Prod.mk.inj (Option.some.inj h)
      exact .commit write rfl rfl rfl
    | cons required left =>
      simp only [txStep] at h
      split_ifs at h with hzero
      · obtain ⟨rfl, rfl⟩ := Prod.mk.inj (Option.some.inj h)
        exact .release rfl rfl rfl trivial
      · obtain ⟨rfl, rfl⟩ := Prod.mk.inj (Option.some.inj h)
        refine .stay rfl rfl rfl ?_
        -- One more scope has been counted.
        rintro ⟨passed, hsplit, hpassed⟩
        refine ⟨passed ++ [required], by simpa using hsplit, ?_⟩
        intro other hother
        rcases List.mem_append.mp hother with hold | hnew
        · exact hpassed other hold
        · rw [List.mem_singleton.mp hnew]
          exact Nat.pos_of_ne_zero hzero
  | create user =>
    simp only [txStep] at h
    split at h
    · obtain ⟨rfl, rfl⟩ := Prod.mk.inj (Option.some.inj h)
      exact .stay rfl rfl rfl fun _ => trivial
    · rename_i db hcreate
      obtain ⟨rfl, rfl⟩ := Prod.mk.inj (Option.some.inj h)
      exact .create user rfl (by rw [CreateUser_ok hcreate]) rfl

/-- The step lemma. -/
theorem authz_effect {w w' : Authz} {tx tx' : Tx} {action : TxAction}
    (h : authz.step w tx action = some (w', tx')) : TxEffect w tx w' tx' := by
  cases action with
  | next => exact txStep_effect h
  | update request =>
    cases tx with
    | idle | done res =>
      obtain ⟨rfl, rfl⟩ := Prod.mk.inj (Option.some.inj h)
      exact .stay rfl rfl rfl fun _ => trivial
    | _ => simp [authz] at h
  | create user =>
    cases tx with
    | idle | done res =>
      obtain ⟨rfl, rfl⟩ := Prod.mk.inj (Option.some.inj h)
      exact .stay rfl rfl rfl fun _ => trivial
    | _ => simp [authz] at h
  | abort =>
    cases tx with
    | idle => simp [authz] at h
    | done res => simp [authz] at h
    | update request | check write left =>
      obtain ⟨rfl, rfl⟩ := Prod.mk.inj (Option.some.inj h)
      exact .release rfl rfl rfl trivial
    | lock request | create user =>
      obtain ⟨rfl, rfl⟩ := Prod.mk.inj (Option.some.inj h)
      exact .stay rfl (by simp [Tx.inside]) rfl fun _ => trivial

/-! ## The invariant -/

structure Guarded (s : Pool Authz Tx) : Prop where
  held : ∀ required ∈ requiredScopes, 0 < s.shared.db.holders required
  locked : ∀ i, (s.locals i).inside → s.shared.locked
  alone : ∀ i j, (s.locals i).inside → (s.locals j).inside → i = j
  checked : ∀ i, Checked s.shared.db (s.locals i)

/-- What was counted stands while the tables stay, and when an account is added. -/
theorem checked_append {db : AccountStore} {tx : Tx} (user : UserRow) (h : Checked db tx) :
    Checked { db with users := db.users ++ [user] } tx := by
  cases tx with
  | check write left =>
    obtain ⟨passed, hsplit, hpassed⟩ := h
    refine ⟨passed, hsplit, ?_⟩
    intro required hrequired
    have hmono := holders_apply_append db user write required
    have hpos := hpassed required hrequired
    omega
  | _ => trivial

theorem guarded_step {s t : Pool Authz Tx} {a : ℕ × TxAction} (h : Guarded s)
    (hstep : authz.machine.step s a = some t) : Guarded t := by
  obtain ⟨i, action⟩ := a
  obtain ⟨tx, htx, hlocal, hothers⟩ := Process.step_cases hstep
  have hcases : ∀ j, j = i ∨ (j ≠ i ∧ t.locals j = s.locals j) := by
    intro j
    by_cases hj : j = i
    · exact .inl hj
    · exact .inr ⟨hj, hothers j hj⟩
  -- When process `i` is inside afterwards only if it was before, so is every one.
  have hinside : (tx.inside → (s.locals i).inside) →
      ∀ j, (t.locals j).inside → (s.locals j).inside := by
    intro hback j hj
    rcases hcases j with rfl | ⟨-, heq⟩
    · exact hback (hlocal ▸ hj)
    · exact heq ▸ hj
  cases authz_effect htx with
  | stay hdb hlocked hsame hchecked =>
    have hback := hinside (fun htx => by rw [← hsame]; exact htx)
    refine ⟨by rw [hdb]; exact h.held, fun j hj => ?_, fun j k hj hk => ?_, fun j => ?_⟩
    · rw [hlocked]
      exact h.locked j (hback j hj)
    · exact h.alone j k (hback j hj) (hback k hk)
    · rw [hdb]
      rcases hcases j with rfl | ⟨-, heq⟩
      · rw [hlocal]
        exact hchecked (h.checked j)
      · rw [heq]
        exact h.checked j
  | acquire hfree hdb hlocked hchecked =>
    -- No one was inside while the lock was free.
    have hnone : ∀ j, (t.locals j).inside → j = i := by
      intro j hj
      rcases hcases j with rfl | ⟨-, heq⟩
      · rfl
      · have hbefore := h.locked j (heq ▸ hj)
        rw [hfree] at hbefore
        cases hbefore
    refine ⟨by rw [hdb]; exact h.held, fun _ _ => hlocked, fun j k hj hk => ?_, fun j => ?_⟩
    · rw [hnone j hj, hnone k hk]
    · rw [hdb]
      rcases hcases j with rfl | ⟨-, heq⟩
      · rw [hlocal]
        exact hchecked
      · rw [heq]
        exact h.checked j
  | release hin hdb hafter hchecked =>
    have hnone : ∀ j, ¬ (t.locals j).inside := by
      intro j hj
      rcases hcases j with rfl | ⟨hne, heq⟩
      · rw [hlocal, hafter] at hj
        cases hj
      · exact hne (h.alone j i (heq ▸ hj) hin)
    refine ⟨by rw [hdb]; exact h.held, fun j hj => absurd hj (hnone j),
      fun j k hj _ => absurd hj (hnone j), fun j => ?_⟩
    rw [hdb]
    rcases hcases j with rfl | ⟨-, heq⟩
    · rw [hlocal]
      exact hchecked
    · rw [heq]
      exact h.checked j
  | commit write hbefore hworld hafter =>
    have hnone : ∀ j, ¬ (t.locals j).inside := by
      intro j hj
      rcases hcases j with rfl | ⟨hne, heq⟩
      · rw [hlocal, hafter] at hj
        cases hj
      · exact hne (h.alone j i (heq ▸ hj) (hbefore ▸ rfl))
    -- Both scopes have been counted on what is committed now.
    have hpassed := h.checked i
    rw [hbefore] at hpassed
    obtain ⟨passed, hsplit, hheld⟩ := hpassed
    rw [List.append_nil] at hsplit
    refine ⟨by rw [hworld, hsplit]; exact hheld, fun j hj => absurd hj (hnone j),
      fun j k hj _ => absurd hj (hnone j), fun j => ?_⟩
    cases hphase : t.locals j with
    | check write left => exact absurd (by rw [hphase]; rfl) (hnone j)
    | _ => trivial
  | create user hbefore hworld hafter =>
    have hback := hinside (fun htx => by rw [hafter] at htx; cases htx)
    refine ⟨fun required hrequired => ?_, fun j hj => ?_, fun j k hj hk => ?_, fun j => ?_⟩
    · rw [hworld]
      have hmono := holders_append s.shared.db user required
      have hpos := h.held required hrequired
      exact hpos.trans_le hmono
    · rw [hworld]
      exact h.locked j (hback j hj)
    · exact h.alone j k (hback j hj) (hback k hk)
    · rw [hworld]
      rcases hcases j with rfl | ⟨-, heq⟩
      · rw [hlocal, hafter]
        trivial
      · rw [heq]
        exact checked_append user (h.checked j)

/-! ## What a failed transaction leaves -/

/-- A finished process that starts nothing stays finished. -/
theorem done_stays {s t : Pool Authz Tx} {i : ℕ} {res : Except ServiceError Unit}
    {as : List (ℕ × TxAction)} (hdone : s.locals i = .done res)
    (hstart : ∀ a ∈ as, a.1 = i → a.2 = .next ∨ a.2 = .abort)
    (hrun : authz.machine.run s as = some t) : t.locals i = .done res := by
  induction as generalizing s with
  | nil =>
    obtain rfl : s = t := by simpa using hrun
    exact hdone
  | cons a as ih =>
    obtain ⟨v, hstep, hrest⟩ := authz.machine.run_cons_eq_some.1 hrun
    obtain ⟨j, action⟩ := a
    obtain ⟨tx, htx, -, hothers⟩ := Process.step_cases hstep
    refine ih ?_ (fun b hb => hstart b (List.mem_cons_of_mem _ hb)) hrest
    by_cases hj : j = i
    · subst hj
      rw [hdone] at htx
      rcases hstart (j, action) List.mem_cons_self rfl with rfl | rfl <;> simp [authz, txStep] at htx
    · rw [hothers i (Ne.symm hj)]
      exact hdone

/-- The steps of process `i` leave the tables as they are. -/
def LeavesTables (i : ℕ) (s : Pool Authz Tx) (a : ℕ × TxAction) : Prop :=
  a.1 = i → ∀ t, authz.machine.step s a = some t → t.shared.db = s.shared.db

/-- A transaction that ends in an error has changed nothing on its way. -/
theorem failed_leavesTables {s t : Pool Authz Tx} {i : ℕ} {e : ServiceError}
    {as : List (ℕ × TxAction)} (hstart : ∀ a ∈ as, a.1 = i → a.2 = .next ∨ a.2 = .abort)
    (hrun : authz.machine.run s as = some t) (hfailed : t.locals i = .done (.error e)) :
    authz.machine.Along (LeavesTables i) s as := by
  induction as generalizing s with
  | nil => trivial
  | cons a as ih =>
    obtain ⟨v, hstep, hrest⟩ := authz.machine.run_cons_eq_some.1 hrun
    have hlater := fun b hb => hstart b (List.mem_cons_of_mem a hb)
    refine ⟨fun hi u hu => ?_, fun u hu => ?_⟩
    · obtain rfl : v = u := by simpa [hstep] using hu
      obtain ⟨j, action⟩ := a
      obtain rfl : j = i := hi
      obtain ⟨tx, htx, hlocal, -⟩ := Process.step_cases hstep
      -- A step that changes the tables ends in success, and that is what is left at the end.
      have hdone : tx ≠ .done (.ok ()) := by
        rintro rfl
        rw [done_stays hlocal hlater hrest] at hfailed
        cases hfailed
      cases authz_effect htx with
      | stay hdb _ _ _ => exact hdb
      | acquire _ hdb _ _ => exact hdb
      | release _ hdb _ _ => exact hdb
      | commit write _ _ hafter => exact absurd hafter hdone
      | create user _ _ hafter => exact absurd hafter hdone
    · obtain rfl : v = u := by simpa [hstep] using hu
      exact ih hlater hrest

/-- The capabilities are never lost.  From any state in which both have an enabled
holder and no transaction is open, every run ends in such a state, and a transaction
in it that reports the last holder has changed neither accounts nor roles. -/
theorem capabilities_never_lost {s t : Pool Authz Tx} {as : List (ℕ × TxAction)}
    (hheld : ∀ required ∈ requiredScopes, 0 < s.shared.db.holders required)
    (hidle : ∀ i, s.locals i = .idle) (hrun : authz.machine.run s as = some t) :
    (∀ required ∈ requiredScopes, 0 < t.shared.db.holders required) ∧
    ∀ (before during after : List (ℕ × TxAction)) (i : ℕ) (request : AuthzRequest)
        (u v : Pool Authz Tx),
      as = before ++ (i, .update request) :: during ++ after →
      (∀ a ∈ during, a.1 = i → a.2 = .next ∨ a.2 = .abort) →
      authz.machine.run s before = some u →
      authz.machine.run u ((i, .update request) :: during) = some v →
      v.locals i = .done (.error .lastCapabilityHolder) →
      authz.machine.Along (LeavesTables i) u ((i, .update request) :: during) := by
  have hinit : Guarded s := by
    refine ⟨hheld, fun i hi => ?_, fun i j hi _ => ?_, fun i => by rw [hidle i]; trivial⟩
    · rw [hidle i] at hi
      cases hi
    · rw [hidle i] at hi
      cases hi
  refine ⟨(authz.machine.run_invariant (fun _ _ _ h hstep => guarded_step h hstep) hinit hrun).held,
    ?_⟩
  intro before during after i request u v _ hduring _ hrest hfailed
  obtain ⟨w, hstep, hmore⟩ := authz.machine.run_cons_eq_some.1 hrest
  refine ⟨fun _ w' hw' => ?_, fun w' hw' => ?_⟩
  · obtain ⟨tx, htx, -, -⟩ := Process.step_cases hw'
    cases hphase : u.locals i with
    | idle | done res =>
      rw [hphase] at htx
      obtain ⟨hshared, -⟩ := Prod.mk.inj (Option.some.inj htx)
      rw [← hshared]
    | _ => simp [hphase, authz] at htx
  · obtain rfl : w = w' := by simpa [hstep] using hw'
    exact failed_leavesTables hduring hmore hfailed

/-! ## One administrator -/

/-- A deployment whose only account administers it. -/
def oneAdmin : AccountStore where
  users := [{ id := default, username := lit "root", role := lit "admin" }]
  roles := [⟨lit "admin", [.usersManage, .rolesManage], true⟩, ⟨lit "user", [], false⟩]

/-- The account is to become a plain user. -/
def demoteSteps : List (ℕ × TxAction) :=
  (0, .update (.updateUser (Uuid.toText default) (some (lit "user")) none)) ::
    List.replicate 3 (0, .next)

theorem capabilities_never_lost_demote :
    ∃ t, authz.machine.run ⟨⟨oneAdmin, false⟩, fun _ => .idle⟩ demoteSteps = some t ∧
      (∀ required ∈ requiredScopes, 0 < t.shared.db.holders required) ∧
      authz.machine.Along (LeavesTables 0) ⟨⟨oneAdmin, false⟩, fun _ => .idle⟩ demoteSteps := by
  have hruns : ((authz.machine.run ⟨⟨oneAdmin, false⟩, fun _ => .idle⟩ demoteSteps).map fun t =>
      match t.locals 0 with
      | .done (.error .lastCapabilityHolder) => true
      | _ => false) = some true := by
    decide
  obtain ⟨t, ht, hdone⟩ := Option.map_eq_some_iff.mp hruns
  have hfailed : t.locals 0 = .done (.error .lastCapabilityHolder) := by
    split at hdone
    · assumption
    · cases hdone
  obtain ⟨hheld, hfail⟩ := capabilities_never_lost (by decide) (fun _ => rfl) ht
  exact ⟨t, ht, hheld, hfail [] _ [] 0 _ _ t rfl (by simp) rfl ht hfailed⟩

end Purels.Properties
