import Mathlib.Data.List.Pairwise
import Purels.Service.FirstSignIns

/-!
# One account for an external identity

Any number of first sign-ins and registrations, statement by statement.  Whoever wins, all
sign-ins of one identity that succeed return one account, and no account is left without its
identity.

* `AccountsSound`: what holds of the tables between two statements.
* `Entitled`: what a call may rely on at its next step.
* `Spares`: what a step leaves to the others.
* `step_spec`: all three, for every step; `one_account`, for every run.
-/

namespace Purels.Properties

open Go Service Store Lib

/-! ## Between two statements -/

/-- The identity that a call resolves. -/
def keyOf (args : ResolveArgs) : Uuid × GoString := (args.provider.id, args.subject)

/-- The identity is committed, for the account. -/
def Linked (t : AccountTables) (key : Uuid × GoString) (userID : Uuid) : Prop :=
  ∃ row ∈ t.oidc.identities, row.key = key ∧ row.userID = userID

/-- An open transaction has keys that are not committed, and the identity of its account. -/
structure OpenSound (t : AccountTables) (tx : OpenAccount) : Prop where
  users : ∀ user ∈ t.accounts.users, user.sameKey tx.user = false
  keys : ∀ row ∈ tx.identity, row.key ∉ t.oidc.identities.map OIDCIdentityRow.key
  owned : ∀ row ∈ tx.identity, row.userID = tx.user.id

/-- Two open transactions have no key in common. -/
def KeysApart (tx tx' : OpenAccount) : Prop :=
  tx.user.sameKey tx'.user = false ∧
    ∀ row ∈ tx.identity, ∀ row' ∈ tx'.identity, row.key ≠ row'.key

/-- The keys are unique among what is committed and what is open, and an account without a
password has an identity, unless it was there before. -/
structure AccountsSound (old : List UserRow) (t : AccountTables) : Prop where
  users : t.accounts.users.Pairwise fun a b => a.sameKey b = false
  identities : (t.oidc.identities.map OIDCIdentityRow.key).Nodup
  opened : ∀ tx ∈ t.opened, OpenSound t tx
  apart : ∀ tx ∈ t.opened, ∀ tx' ∈ t.opened, tx = tx' ∨ KeysApart tx tx'
  bound : ∀ user ∈ t.accounts.users, user.passwordHash = oidcPasswordHash →
    user ∈ old ∨ ∃ row ∈ t.oidc.identities, row.userID = user.id

/-- What a call may rely on: the account it reads is bound to its identity, and its transaction
is open with what it has inserted. -/
def Entitled (t : AccountTables) : AccountCall → Prop
  | .touch args identity => Linked t (keyOf args) identity.userID
  | .load args userID => Linked t (keyOf args) userID
  | .insertIdentity _ userID => ∃ tx ∈ t.opened, tx.user.id = userID
  | .commit args userID =>
    ∃ tx ∈ t.opened, tx.user.id = userID ∧ ∃ row ∈ tx.identity, row.key = keyOf args
  | .reload args userID => Linked t (keyOf args) userID
  | .done (.resolved args user) =>
    user ∈ t.accounts.users ∧ Linked t (keyOf args) user.id
  | _ => True

/-- What a step of the call that holds `held` leaves to the others. -/
structure Spares (held : Option Uuid) (t t' : AccountTables) : Prop where
  users : t.accounts.users ⊆ t'.accounts.users
  bound : ∀ key userID, Linked t key userID → Linked t' key userID
  opened : ∀ tx ∈ t.opened, some tx.user.id ≠ held → tx ∈ t'.opened

theorem Spares.refl (held : Option Uuid) (t : AccountTables) : Spares held t t :=
  ⟨List.Subset.refl _, fun _ _ h => h, fun _ h _ => h⟩

/-- A call that holds another transaction is entitled to the same after the step. -/
theorem Spares.entitled {held : Option Uuid} {t t' : AccountTables} {call : AccountCall}
    (hkeeps : Spares held t t') (h : Entitled t call)
    (hother : ∀ userID, call.held = some userID → some userID ≠ held) : Entitled t' call := by
  cases call with
  | touch args identity => exact hkeeps.bound _ _ h
  | load args userID => exact hkeeps.bound _ _ h
  | reload args userID => exact hkeeps.bound _ _ h
  | insertIdentity args userID =>
    obtain ⟨tx, htx, hid⟩ := h
    exact ⟨tx, hkeeps.opened tx htx (hid ▸ hother userID rfl), hid⟩
  | commit args userID =>
    obtain ⟨tx, htx, hid, hidentity⟩ := h
    exact ⟨tx, hkeeps.opened tx htx (hid ▸ hother userID rfl), hid, hidentity⟩
  | done result =>
    cases result with
    | resolved args user => exact ⟨hkeeps.users h.1, hkeeps.bound _ _ h.2⟩
    | registered user => trivial
    | failed e => trivial
  | idle => trivial
  | find args => trivial
  | naming args attempt tried => trivial
  | insertUser args attempt username => trivial
  | reread args => trivial
  | register registration => trivial

/-- The transaction that a call holds is open. -/
theorem Entitled.open_of_held {t : AccountTables} {call : AccountCall} (h : Entitled t call)
    {userID : Uuid} (hheld : call.held = some userID) : ∃ tx ∈ t.opened, tx.user.id = userID := by
  cases call with
  | insertIdentity args other =>
    obtain rfl : other = userID := Option.some.inj hheld
    exact h
  | commit args other =>
    obtain rfl : other = userID := Option.some.inj hheld
    obtain ⟨tx, htx, hid, -⟩ := h
    exact ⟨tx, htx, hid⟩
  | _ => cases hheld

/-! ## Statements -/

theorem sameKey_comm (a b : UserRow) : a.sameKey b = b.sameKey a := by
  unfold UserRow.sameKey
  rw [Bool.beq_comm, Bool.beq_comm (a := a.username)]

theorem id_ne_of_sameKey {a b : UserRow} (h : a.sameKey b = false) : a.id ≠ b.id := by
  rw [UserRow.sameKey, Bool.or_eq_false_iff, beq_eq_false_iff_ne] at h
  exact h.1

theorem KeysApart.symm {tx tx' : OpenAccount} (h : KeysApart tx tx') : KeysApart tx' tx :=
  ⟨(sameKey_comm _ _).trans h.1, fun row hrow row' hrow' heq => h.2 row' hrow' row hrow heq.symm⟩

/-- A row that is inserted has no key in common with another. -/
theorem insertedUser_ok {t : AccountTables} {user : UserRow} {accounts : AccountStore}
    (h : t.insertedUser user = some (.ok accounts)) :
    accounts = { t.accounts with users := t.accounts.users ++ [user] } ∧
      (∀ other ∈ t.accounts.users, other.sameKey user = false) ∧
      ∀ tx ∈ t.opened, tx.user.sameKey user = false := by
  unfold AccountTables.insertedUser at h
  cases hcreate : t.accounts.CreateUser user with
  | error e =>
    rw [hcreate] at h
    cases h
  | ok created =>
    rw [hcreate] at h
    dsimp only at h
    split at h
    · cases h
    · rename_i hwait
      obtain rfl : created = accounts := Except.ok.inj (Option.some.inj h)
      unfold AccountStore.CreateUser at hcreate
      split at hcreate
      · cases hcreate
      · rename_i hconflict
        split at hcreate
        · cases hcreate
        · rw [List.any_eq_true, not_exists] at hwait hconflict
          refine ⟨(Except.ok.inj hcreate).symm, fun other hother => ?_, fun tx htx => ?_⟩
          · exact Bool.eq_false_iff.mpr fun hsame => hconflict other ⟨hother, hsame⟩
          · exact Bool.eq_false_iff.mpr fun hsame => hwait tx ⟨htx, hsame⟩

section

variable {old : List UserRow} {t t' : AccountTables}

/-- Open transactions are told apart by their accounts. -/
theorem AccountsSound.eq_of_id (h : AccountsSound old t) {tx tx' : OpenAccount}
    (htx : tx ∈ t.opened) (htx' : tx' ∈ t.opened) (hid : tx.user.id = tx'.user.id) : tx = tx' :=
  (h.apart tx htx tx' htx').resolve_right fun hapart => id_ne_of_sameKey hapart.1 hid

/-- A registration commits an account of new keys. -/
theorem registerUser_spec {user : UserRow} (h : t.registerUser user = some (.ok t'))
    (hhash : user.passwordHash ≠ oidcPasswordHash) (hsound : AccountsSound old t) :
    AccountsSound old t' ∧ Spares none t t' := by
  obtain ⟨result, hinsert, hresult⟩ := Option.map_eq_some_iff.mp h
  cases result with
  | error e => cases hresult
  | ok accounts =>
    obtain rfl : { t with accounts } = t' := Except.ok.inj hresult
    obtain ⟨haccounts, hfree, hopen⟩ := insertedUser_ok hinsert
    subst haccounts
    refine ⟨?_, List.subset_append_left _ _, fun _ _ hbound => hbound, fun _ htx _ => htx⟩
    exact {
      users := List.pairwise_append.mpr
        ⟨hsound.users, List.pairwise_singleton _ _, fun other hother _ hmem =>
          (List.mem_singleton.mp hmem) ▸ hfree other hother⟩
      identities := hsound.identities
      opened := by
        intro tx htx
        refine ⟨fun other hother => ?_, (hsound.opened tx htx).keys, (hsound.opened tx htx).owned⟩
        rcases List.mem_append.mp hother with hold | hnew
        · exact (hsound.opened tx htx).users other hold
        · rw [List.mem_singleton.mp hnew, sameKey_comm]
          exact hopen tx htx
      apart := hsound.apart
      bound := by
        intro other hother hoidc
        rcases List.mem_append.mp hother with hold | hnew
        · exact hsound.bound other hold hoidc
        · exact absurd (List.mem_singleton.mp hnew ▸ hoidc) hhash }

/-- A transaction begins with an account of new keys. -/
theorem insertUser_spec {user : UserRow} (h : t.insertUser user = some (.ok t'))
    (hsound : AccountsSound old t) :
    AccountsSound old t' ∧ Spares none t t' ∧ ⟨user, none⟩ ∈ t'.opened ∧
      ∀ tx ∈ t.opened, tx.user.id ≠ user.id := by
  obtain ⟨result, hinsert, hresult⟩ := Option.map_eq_some_iff.mp h
  cases result with
  | error e => cases hresult
  | ok accounts =>
    obtain rfl : { t with opened := t.opened ++ [⟨user, none⟩] } = t' := Except.ok.inj hresult
    obtain ⟨-, hfree, hopen⟩ := insertedUser_ok hinsert
    have hids : ∀ tx ∈ t.opened, tx.user.id ≠ user.id := fun tx htx =>
      id_ne_of_sameKey (hopen tx htx)
    have hapart : ∀ tx ∈ t.opened, KeysApart tx ⟨user, none⟩ := fun tx htx =>
      ⟨hopen tx htx, fun _ _ _ hnone => by cases hnone⟩
    have hmem : ∀ tx, tx ∈ t.opened ++ [⟨user, none⟩] → tx ∈ t.opened ∨ tx = ⟨user, none⟩ := by
      intro tx htx
      exact (List.mem_append.mp htx).imp_right List.mem_singleton.mp
    refine ⟨?_, ?_, List.mem_append_right _ (List.mem_singleton_self _), hids⟩
    · exact {
        users := hsound.users
        identities := hsound.identities
        opened := by
          intro tx htx
          rcases hmem tx htx with hold | rfl
          · exact ⟨(hsound.opened tx hold).users, (hsound.opened tx hold).keys,
              (hsound.opened tx hold).owned⟩
          · exact ⟨hfree, nofun, nofun⟩
        apart := by
          intro tx htx tx' htx'
          rcases hmem tx htx with hold | rfl
          · rcases hmem tx' htx' with hold' | rfl
            · exact hsound.apart tx hold tx' hold'
            · exact Or.inr (hapart tx hold)
          · rcases hmem tx' htx' with hold' | rfl
            · exact Or.inr (hapart tx' hold').symm
            · exact Or.inl rfl
        bound := hsound.bound }
    · exact ⟨List.Subset.refl _, fun _ _ hbound => hbound, fun tx htx _ =>
        List.mem_append_left _ htx⟩

/-- A transaction that is rolled back leaves the others as they are. -/
theorem rollbackAccount_spec (userID : Uuid) (hsound : AccountsSound old t) :
    AccountsSound old (t.rollbackAccount userID) ∧
      Spares (some userID) t (t.rollbackAccount userID) := by
  have hmem : ∀ tx ∈ (t.rollbackAccount userID).opened, tx ∈ t.opened := fun tx htx =>
    List.mem_of_mem_filter htx
  refine ⟨?_, List.Subset.refl _, fun _ _ hbound => hbound, fun tx htx hne => ?_⟩
  · exact {
      users := hsound.users
      identities := hsound.identities
      opened := fun tx htx => ⟨(hsound.opened tx (hmem tx htx)).users,
        (hsound.opened tx (hmem tx htx)).keys, (hsound.opened tx (hmem tx htx)).owned⟩
      apart := fun tx htx tx' htx' => hsound.apart tx (hmem tx htx) tx' (hmem tx' htx')
      bound := hsound.bound }
  · exact List.mem_filter.mpr ⟨htx, bne_iff_ne.mpr fun heq => hne (congrArg some heq)⟩

/-- The open transactions with an identity for one of them. -/
def withIdentity (opened : List OpenAccount) (row : OIDCIdentityRow) : List OpenAccount :=
  opened.map fun tx => if tx.user.id == row.userID then { tx with identity := some row } else tx

/-- An identity that is inserted has no key in common with another. -/
theorem insertIdentity_ok {userID providerID : Uuid} {subject email : GoString} {now : Instant}
    (h : t.insertIdentity userID providerID subject email now = some (.ok t')) :
    ∃ row : OIDCIdentityRow, row.userID = userID ∧ row.key = (providerID, subject) ∧
      row.key ∉ t.oidc.identities.map OIDCIdentityRow.key ∧
      (∀ tx ∈ t.opened, tx.user.id ≠ userID → ∀ other ∈ tx.identity, other.key ≠ row.key) ∧
      t'.accounts = t.accounts ∧ t'.oidc.identities = t.oidc.identities ∧
      t'.opened = withIdentity t.opened row := by
  unfold AccountTables.insertIdentity at h
  split_ifs at h with hstorable hconflict hwait hprovider
  · cases h
  · cases h
  · cases h
  obtain rfl := Except.ok.inj (Option.some.inj h)
  rw [List.any_eq_true, not_exists] at hconflict hwait
  refine ⟨⟨t.oidc.nextID, providerID, userID, subject, nullableText email, some now⟩, rfl, rfl,
    fun hmem => ?_, fun tx htx hne other hother heq => ?_, rfl, rfl, rfl⟩
  · obtain ⟨other, hother, heq⟩ := List.mem_map.mp hmem
    exact hconflict other ⟨hother, beq_iff_eq.mpr heq⟩
  · refine hwait tx ⟨htx, Bool.and_eq_true_iff.mpr ⟨bne_iff_ne.mpr hne, ?_⟩⟩
    rw [Option.any_eq_true]
    exact ⟨other, hother, beq_iff_eq.mpr heq⟩

/-- A transaction inserts an identity of a new key, its account's. -/
theorem insertIdentity_spec {userID providerID : Uuid} {subject email : GoString} {now : Instant}
    (h : t.insertIdentity userID providerID subject email now = some (.ok t'))
    (hsound : AccountsSound old t) (hopen : ∃ tx ∈ t.opened, tx.user.id = userID) :
    AccountsSound old t' ∧ Spares (some userID) t t' ∧
      ∃ tx ∈ t'.opened, tx.user.id = userID ∧
        ∃ row ∈ tx.identity, row.key = (providerID, subject) := by
  obtain ⟨row, rfl, hkey, hfree, hothers, haccounts, hidentities, hopened⟩ := insertIdentity_ok h
  refine ⟨?_, ⟨?_, fun key userID hbound => ?_, fun tx htx hne => ?_⟩, ?_⟩
  · exact {
      users := haccounts ▸ hsound.users
      identities := hidentities ▸ hsound.identities
      opened := by
        rw [hopened]
        intro tx' htx'
        obtain ⟨tx, htx, rfl⟩ := List.mem_map.mp htx'
        have htxSound := hsound.opened tx htx
        by_cases hid : tx.user.id = row.userID
        · rw [if_pos (beq_iff_eq.mpr hid)]
          refine ⟨haccounts ▸ htxSound.users, fun other hother => ?_, fun other hother => ?_⟩
          · rw [← Option.some.inj hother, hidentities]
            exact hfree
          · rw [← Option.some.inj hother]
            exact hid.symm
        · rw [if_neg fun heq => hid (beq_iff_eq.mp heq)]
          exact ⟨haccounts ▸ htxSound.users, hidentities ▸ htxSound.keys, htxSound.owned⟩
      apart := by
        rw [hopened]
        intro a ha b hb
        obtain ⟨tx, htx, rfl⟩ := List.mem_map.mp ha
        obtain ⟨tx', htx', rfl⟩ := List.mem_map.mp hb
        rcases hsound.apart tx htx tx' htx' with heq | hapart
        · exact Or.inl (heq ▸ rfl)
        · right
          have hne := id_ne_of_sameKey hapart.1
          by_cases hid : tx.user.id = row.userID
          · have hid' : tx'.user.id ≠ row.userID := fun heq => hne (hid.trans heq.symm)
            rw [if_pos (beq_iff_eq.mpr hid), if_neg fun heq => hid' (beq_iff_eq.mp heq)]
            refine ⟨hapart.1, fun other hother other' hother' heq => ?_⟩
            rw [← Option.some.inj hother] at heq
            exact hothers tx' htx' hid' other' hother' heq.symm
          · rw [if_neg fun heq => hid (beq_iff_eq.mp heq)]
            by_cases hid' : tx'.user.id = row.userID
            · rw [if_pos (beq_iff_eq.mpr hid')]
              refine ⟨hapart.1, fun other hother other' hother' heq => ?_⟩
              rw [← Option.some.inj hother'] at heq
              exact hothers tx htx hid other hother heq
            · rw [if_neg fun heq => hid' (beq_iff_eq.mp heq)]
              exact hapart
      bound := by
        rw [haccounts, hidentities]
        exact hsound.bound }
  · rw [haccounts]
    exact List.Subset.refl _
  · unfold Linked
    rw [hidentities]
    exact hbound
  · rw [hopened]
    refine List.mem_map.mpr ⟨tx, htx, if_neg fun heq => hne ?_⟩
    exact congrArg some (beq_iff_eq.mp heq)
  · obtain ⟨tx, htx, hid⟩ := hopen
    rw [hopened]
    refine ⟨{ tx with identity := some row }, List.mem_map.mpr ⟨tx, htx, ?_⟩, hid, row, rfl, hkey⟩
    exact if_pos (beq_iff_eq.mpr hid)

/-- A transaction that commits adds its account with the identity. -/
theorem commitAccount_spec {userID : Uuid} {key : Uuid × GoString} (hsound : AccountsSound old t)
    (hopen : ∃ tx ∈ t.opened, tx.user.id = userID ∧ ∃ row ∈ tx.identity, row.key = key) :
    AccountsSound old (t.commitAccount userID) ∧ Spares (some userID) t (t.commitAccount userID) ∧
      Linked (t.commitAccount userID) key userID := by
  obtain ⟨tx, htx, hid, row, hrow, hkey⟩ := hopen
  have hfind : t.opened.find? (fun other => other.user.id == userID) = some tx := by
    have hsome : (t.opened.find? fun other => other.user.id == userID).isSome :=
      List.find?_isSome.mpr ⟨tx, htx, beq_iff_eq.mpr hid⟩
    obtain ⟨found, hfound⟩ := Option.isSome_iff_exists.mp hsome
    have hfoundID : found.user.id = userID := by simpa using List.find?_some hfound
    rw [hfound, hsound.eq_of_id (List.mem_of_find?_eq_some hfound) htx (hfoundID.trans hid.symm)]
  have htables : t.commitAccount userID =
      { accounts := { t.accounts with users := t.accounts.users ++ [tx.user] }
        oidc := { t.oidc with identities := t.oidc.identities ++ [row] }
        opened := (t.rollbackAccount userID).opened } := by
    unfold AccountTables.commitAccount
    rw [hfind]
    dsimp only
    rw [Option.mem_def.mp hrow]
    rfl
  have htxSound := hsound.opened tx htx
  have hothers : ∀ tx' ∈ (t.rollbackAccount userID).opened, tx' ∈ t.opened ∧ KeysApart tx tx' := by
    intro tx' htx'
    obtain ⟨hmem, hne⟩ := List.mem_filter.mp htx'
    refine ⟨hmem, (hsound.apart tx htx tx' hmem).resolve_left fun heq => ?_⟩
    exact bne_iff_ne.mp hne (heq ▸ hid)
  rw [htables]
  refine ⟨?_, ⟨List.subset_append_left _ _, fun key' userID' hbound => ?_, fun tx' htx' hne => ?_⟩,
    row, List.mem_append_right _ (List.mem_singleton_self _), hkey,
    (htxSound.owned row hrow).trans hid⟩
  · exact {
      users := List.pairwise_append.mpr
        ⟨hsound.users, List.pairwise_singleton _ _, fun other hother _ hmem =>
          (List.mem_singleton.mp hmem) ▸ htxSound.users other hother⟩
      identities := by
        rw [List.map_append, List.map_singleton, List.nodup_append]
        refine ⟨hsound.identities, List.nodup_singleton _, fun a ha b hb heq => ?_⟩
        rw [heq, List.mem_singleton.mp hb] at ha
        exact htxSound.keys row hrow ha
      opened := by
        intro tx' htx'
        obtain ⟨hmem, hapart⟩ := hothers tx' htx'
        have htxSound' := hsound.opened tx' hmem
        refine ⟨fun other hother => ?_, fun other hother hcommitted => ?_, htxSound'.owned⟩
        · rcases List.mem_append.mp hother with hold | hnew
          · exact htxSound'.users other hold
          · rw [List.mem_singleton.mp hnew]
            exact hapart.1
        · rw [List.map_append, List.map_singleton, List.mem_append] at hcommitted
          rcases hcommitted with hold | hnew
          · exact htxSound'.keys other hother hold
          · exact hapart.2 row hrow other hother (List.mem_singleton.mp hnew).symm
      apart := fun a ha b hb => hsound.apart a (hothers a ha).1 b (hothers b hb).1
      bound := by
        intro other hother hoidc
        rcases List.mem_append.mp hother with hold | hnew
        · refine (hsound.bound other hold hoidc).imp_right fun ⟨r, hr, hrID⟩ => ?_
          exact ⟨r, List.mem_append_left _ hr, hrID⟩
        · rw [List.mem_singleton.mp hnew]
          exact Or.inr ⟨row, List.mem_append_right _ (List.mem_singleton_self _),
            htxSound.owned row hrow⟩ }
  · obtain ⟨r, hr, hrKey, hrID⟩ := hbound
    exact ⟨r, List.mem_append_left _ hr, hrKey, hrID⟩
  · exact List.mem_filter.mpr ⟨htx', bne_iff_ne.mpr fun heq => hne (congrArg some heq)⟩

/-- A sign-in that is recorded changes neither the key nor the account of an identity. -/
theorem touch_rows (s : OIDCStore) (id : ℕ) (email : GoString) (now : Instant) :
    ∃ f : OIDCIdentityRow → OIDCIdentityRow,
      (∀ row, (f row).key = row.key ∧ (f row).userID = row.userID) ∧
        (s.TouchOIDCIdentity id email now).2.identities = s.identities.map f := by
  unfold OIDCStore.TouchOIDCIdentity
  split_ifs
  · exact ⟨fun row => row, fun _ => ⟨rfl, rfl⟩, (List.map_id' _).symm⟩
  · exact ⟨fun row => row, fun _ => ⟨rfl, rfl⟩, (List.map_id' _).symm⟩
  · refine ⟨_, fun row => ?_, rfl⟩
    split
    · exact ⟨rfl, rfl⟩
    · exact ⟨rfl, rfl⟩

theorem touch_spec (id : ℕ) (email : GoString) (now : Instant) (hsound : AccountsSound old t) :
    AccountsSound old { t with oidc := (t.oidc.TouchOIDCIdentity id email now).2 } ∧
      Spares none t { t with oidc := (t.oidc.TouchOIDCIdentity id email now).2 } := by
  obtain ⟨f, hf, hrows⟩ := touch_rows t.oidc id email now
  have hkeys : (t.oidc.TouchOIDCIdentity id email now).2.identities.map OIDCIdentityRow.key =
      t.oidc.identities.map OIDCIdentityRow.key := by
    rw [hrows, List.map_map]
    exact List.map_congr_left fun row _ => (hf row).1
  have hkept : ∀ row ∈ t.oidc.identities,
      f row ∈ (t.oidc.TouchOIDCIdentity id email now).2.identities := by
    intro row hrow
    rw [hrows]
    exact List.mem_map_of_mem hrow
  refine ⟨?_, List.Subset.refl _, fun key userID ⟨row, hrow, hkey, hid⟩ => ?_, fun _ htx _ => htx⟩
  · exact {
      users := hsound.users
      identities := by
        rw [hkeys]
        exact hsound.identities
      opened := by
        intro tx htx
        refine ⟨(hsound.opened tx htx).users, fun row hrow => ?_, (hsound.opened tx htx).owned⟩
        rw [hkeys]
        exact (hsound.opened tx htx).keys row hrow
      apart := hsound.apart
      bound := by
        intro user huser hoidc
        refine (hsound.bound user huser hoidc).imp_right fun ⟨row, hrow, hid⟩ => ?_
        exact ⟨f row, hkept row hrow, (hf row).2.trans hid⟩ }
  · exact ⟨f row, hkept row hrow, (hf row).1.trans hkey, (hf row).2.trans hid⟩

/-! ## Steps -/

theorem linked_of_find {args : ResolveArgs} {identity : OIDCIdentityRow}
    (h : t.oidc.FindOIDCIdentity args.provider.id args.subject = .ok identity) :
    Linked t (keyOf args) identity.userID := by
  unfold OIDCStore.FindOIDCIdentity at h
  split at h
  · cases h
  · split at h
    · cases h
    · rename_i row hfind
      obtain rfl := Except.ok.inj h
      have hkey := List.find?_some hfind
      rw [Bool.and_eq_true, beq_iff_eq, beq_iff_eq] at hkey
      exact ⟨row, List.mem_of_find?_eq_some hfind, Prod.ext hkey.1 hkey.2, rfl⟩

theorem mem_of_GetUserByID {userID : Uuid} {user : UserRow}
    (h : t.accounts.GetUserByID userID = .ok user) :
    user ∈ t.accounts.users ∧ user.id = userID := by
  unfold AccountStore.GetUserByID at h
  split at h
  · cases h
  · rename_i row hfind
    split at h
    · obtain rfl := Except.ok.inj h
      have hid := List.find?_some hfind
      rw [Bool.and_eq_true, beq_iff_eq] at hid
      exact ⟨List.mem_of_find?_eq_some hfind, hid.1⟩
    · cases h

/-- What a step keeps, what the call may rely on after it, and which transaction it has begun. -/
structure StepSpec (old : List UserRow) (t : AccountTables) (call : AccountCall)
    (t' : AccountTables) (call' : AccountCall) : Prop where
  sound : AccountsSound old t'
  entitled : Entitled t' call'
  keeps : Spares call.held t t'
  held : ∀ userID, call'.held = some userID →
    call.held = some userID ∨ ∀ tx ∈ t.opened, tx.user.id ≠ userID

/-- A step that only reads. -/
theorem StepSpec.read {call call' : AccountCall} (hsound : AccountsSound old t)
    (hheld : call'.held = none) (h : Entitled t call') : StepSpec old t call t call' where
  sound := hsound
  entitled := h
  keeps := Spares.refl _ t
  held := by
    intro userID heq
    rw [hheld] at heq
    cases heq

variable {u : Unicode} {sha256 : GoString → Fin 32 → UInt8} {call call' : AccountCall}
  {now : Instant} {id : Uuid}

theorem insertUserStep_spec {args : ResolveArgs} {attempt : ℕ} {username : GoString}
    (h : insertUserStep args attempt username id t = some (t', call'))
    (hsound : AccountsSound old t) :
    StepSpec old t (.insertUser args attempt username) t' call' := by
  unfold insertUserStep at h
  split at h
  · cases h
  · rename_i inserted hinsert
    obtain ⟨rfl, rfl⟩ := Prod.mk.inj (Option.some.inj h)
    obtain ⟨hsound', hkeeps, hmem, hids⟩ := insertUser_spec hinsert hsound
    refine ⟨hsound', ⟨_, hmem, rfl⟩, hkeeps, fun userID heq => ?_⟩
    obtain rfl : id = userID := Option.some.inj heq
    exact Or.inr hids
  · obtain ⟨rfl, rfl⟩ := Prod.mk.inj (Option.some.inj h)
    split
    · exact .read hsound rfl trivial
    · exact .read hsound rfl trivial
  · obtain ⟨rfl, rfl⟩ := Prod.mk.inj (Option.some.inj h)
    exact .read hsound rfl trivial

theorem insertIdentityStep_spec {args : ResolveArgs} {userID : Uuid}
    (h : insertIdentityStep args userID now t = some (t', call')) (hsound : AccountsSound old t)
    (hentitled : Entitled t (.insertIdentity args userID)) :
    StepSpec old t (.insertIdentity args userID) t' call' := by
  have hrollback := rollbackAccount_spec userID hsound
  unfold insertIdentityStep at h
  split at h
  · cases h
  · rename_i inserted hinsert
    obtain ⟨rfl, rfl⟩ := Prod.mk.inj (Option.some.inj h)
    obtain ⟨hsound', hkeeps, hmem⟩ := insertIdentity_spec hinsert hsound hentitled
    exact ⟨hsound', hmem, hkeeps, fun other heq => Or.inl heq⟩
  · obtain ⟨rfl, rfl⟩ := Prod.mk.inj (Option.some.inj h)
    exact ⟨hrollback.1, trivial, hrollback.2, nofun⟩
  · obtain ⟨rfl, rfl⟩ := Prod.mk.inj (Option.some.inj h)
    exact ⟨hrollback.1, trivial, hrollback.2, nofun⟩

theorem registerStep_spec {registration : Registration}
    (h : registerStep registration id t = some (t', call')) (hsound : AccountsSound old t) :
    StepSpec old t (.register registration) t' call' := by
  unfold registerStep at h
  split at h
  · cases h
  · rename_i inserted hinsert
    obtain ⟨rfl, rfl⟩ := Prod.mk.inj (Option.some.inj h)
    obtain ⟨hsound', hkeeps⟩ := registerUser_spec hinsert registration.hashed hsound
    exact ⟨hsound', trivial, hkeeps, nofun⟩
  · obtain ⟨rfl, rfl⟩ := Prod.mk.inj (Option.some.inj h)
    exact .read hsound rfl trivial

/-- The steps that only read, one after the other. -/
theorem accountStep_spec (h : accountStep u sha256 now id t call = some (t', call'))
    (hsound : AccountsSound old t) (hentitled : Entitled t call) :
    StepSpec old t call t' call' := by
  cases call with
  | idle => cases h
  | done result => cases h
  | insertUser args attempt username => exact insertUserStep_spec h hsound
  | insertIdentity args userID => exact insertIdentityStep_spec h hsound hentitled
  | register registration => exact registerStep_spec h hsound
  | find args =>
    obtain ⟨rfl, rfl⟩ := Prod.mk.inj (Option.some.inj h)
    unfold findIdentityStep
    split
    · rename_i identity hfind
      exact .read hsound rfl (linked_of_find hfind)
    · split
      · exact .read hsound rfl trivial
      · exact .read hsound rfl trivial
    · exact .read hsound rfl trivial
  | touch args identity =>
    obtain ⟨rfl, rfl⟩ := Prod.mk.inj (Option.some.inj h)
    obtain ⟨hsound', hkeeps⟩ := touch_spec identity.id args.email now hsound
    exact ⟨hsound', hkeeps.bound _ _ hentitled, hkeeps, nofun⟩
  | load args userID =>
    obtain ⟨rfl, rfl⟩ := Prod.mk.inj (Option.some.inj h)
    unfold loadAccountStep
    split
    · rename_i user hget
      obtain ⟨hmem, hid⟩ := mem_of_GetUserByID hget
      exact .read hsound rfl ⟨hmem, hid ▸ hentitled⟩
    · exact .read hsound rfl trivial
  | naming args attempt tried =>
    obtain ⟨rfl, rfl⟩ := Prod.mk.inj (Option.some.inj h)
    unfold namingStep
    dsimp only
    split
    · exact .read hsound rfl trivial
    · split
      · exact .read hsound rfl trivial
      · exact .read hsound rfl trivial
  | commit args userID =>
    obtain ⟨rfl, rfl⟩ := Prod.mk.inj (Option.some.inj h)
    obtain ⟨hsound', hkeeps, hbound⟩ := commitAccount_spec hsound hentitled
    exact ⟨hsound', hbound, hkeeps, nofun⟩
  | reread args =>
    obtain ⟨rfl, rfl⟩ := Prod.mk.inj (Option.some.inj h)
    unfold rereadIdentityStep
    split
    · rename_i identity hfind
      exact .read hsound rfl (linked_of_find hfind)
    · exact .read hsound rfl trivial
  | reload args userID =>
    obtain ⟨rfl, rfl⟩ := Prod.mk.inj (Option.some.inj h)
    unfold reloadAccountStep
    split
    · rename_i user hget
      obtain ⟨hmem, hid⟩ := mem_of_GetUserByID hget
      exact .read hsound rfl ⟨hmem, hid ▸ hentitled⟩
    · exact .read hsound rfl trivial

/-- A call that ends early leaves nothing open. -/
theorem StepSpec.released (h : StepSpec old t call t' call') :
    StepSpec old t call (released t' call') (.failed .database) := by
  unfold Service.released
  cases hheld : call'.held with
  | none => exact ⟨h.sound, trivial, h.keeps, nofun⟩
  | some userID =>
    obtain ⟨hsound, hkeeps⟩ := rollbackAccount_spec userID h.sound
    refine ⟨hsound, trivial, ⟨?_, ?_, ?_⟩, nofun⟩
    · exact fun user huser => hkeeps.users (h.keeps.users huser)
    · exact fun key userID hbound => hkeeps.bound key userID (h.keeps.bound key userID hbound)
    · intro tx htx hother
      refine hkeeps.opened tx (h.keeps.opened tx htx hother) fun heq => ?_
      rcases h.held userID hheld with hsame | hnew
      · exact hother (heq.trans hsame.symm)
      · exact hnew tx htx (Option.some.inj heq)

/-- Every step of a call. -/
theorem step_spec {action : AccountAction}
    (h : (accountCalls u sha256).step t call action = some (t', call'))
    (hsound : AccountsSound old t) (hentitled : Entitled t call) :
    StepSpec old t call t' call' := by
  cases action with
  | start request =>
    cases call with
    | idle =>
      obtain ⟨rfl, rfl⟩ := Prod.mk.inj (Option.some.inj h)
      cases request with
      | resolve args => exact .read hsound rfl trivial
      | register registration => exact .read hsound rfl trivial
    | _ => cases h
  | next now id => exact accountStep_spec h hsound hentitled
  | fail =>
    have hstep : (if call.free then none else
        some (released t call, AccountCall.failed .database)) = some (t', call') := h
    split at hstep
    · cases hstep
    · obtain ⟨rfl, rfl⟩ := Prod.mk.inj (Option.some.inj hstep)
      have hself : StepSpec old t call t call :=
        ⟨hsound, hentitled, Spares.refl _ t, fun _ heq => Or.inl heq⟩
      exact hself.released
  | lost now id =>
    obtain ⟨⟨t'', call''⟩, hstep, heq⟩ := Option.map_eq_some_iff.mp h
    obtain ⟨rfl, rfl⟩ := Prod.mk.inj heq
    exact (accountStep_spec hstep hsound hentitled).released

/-- A call that begins a transaction is not the one that another call holds. -/
theorem StepSpec.held_ne (h : StepSpec old t call t' call') {other : AccountCall}
    (hother : Entitled t other) (hne : ∀ userID, call.held = some userID →
      other.held ≠ some userID) (userID : Uuid) (hheld : call'.held = some userID) :
    other.held ≠ some userID := by
  rcases h.held userID hheld with hsame | hnew
  · exact hne userID hsame
  · intro heq
    obtain ⟨tx, htx, hid⟩ := hother.open_of_held heq
    exact hnew tx htx hid

end

/-! ## Runs -/

/-- Before the first step: unique keys, no open transaction and no call. -/
structure NotBegun (s : Pool AccountTables AccountCall) : Prop where
  users : s.shared.accounts.users.Pairwise fun a b => a.sameKey b = false
  identities : (s.shared.oidc.identities.map OIDCIdentityRow.key).Nodup
  opened : s.shared.opened = []
  idle : ∀ i, s.locals i = .idle

theorem NotBegun.sound {s : Pool AccountTables AccountCall} (h : NotBegun s) :
    AccountsSound s.shared.accounts.users s.shared where
  users := h.users
  identities := h.identities
  opened := by simp [h.opened]
  apart := by simp [h.opened]
  bound := fun _ huser _ => Or.inl huser

section

variable {u : Unicode} {sha256 : GoString → Fin 32 → UInt8}

/-- Every state of a run. -/
theorem run_sound {s t : Pool AccountTables AccountCall} {as : List (ℕ × AccountAction)}
    (hs : NotBegun s) (hrun : (accountCalls u sha256).machine.run s as = some t) :
    AccountsSound s.shared.accounts.users t.shared ∧ ∀ i, Entitled t.shared (t.locals i) := by
  have hrule := Process.run_locals_apart
    (I := AccountsSound s.shared.accounts.users) (P := Entitled) (C := fun _ _ => True)
    (R := fun l m => ∀ userID, l.held = some userID → m.held ≠ some userID)
    (fun l m h userID hm hl => h userID hl hm)
    (fun v i a x l hI hP _ hstep =>
      ⟨(step_spec hstep hI hP).sound, (step_spec hstep hI hP).entitled⟩)
    (fun v i a x l m hI hP hm hR hstep =>
      ⟨(step_spec hstep hI hP).keeps.entitled hm fun userID hheld heq =>
          hR userID heq.symm hheld,
        (step_spec hstep hI hP).held_ne hm hR⟩)
    hs.sound (fun i => by rw [hs.idle i]; trivial)
    (fun i j _ userID hheld => by rw [hs.idle i] at hheld; cases hheld)
    ((accountCalls u sha256).machine.along_of_mem (C := fun _ => True) (fun _ _ => trivial) s) hrun
  exact ⟨hrule.1, hrule.2.1⟩

/-- One identity is one account's. -/
theorem AccountsSound.linked_unique {old : List UserRow} {t : AccountTables}
    (h : AccountsSound old t) {key : Uuid × GoString} {a b : Uuid} (ha : Linked t key a)
    (hb : Linked t key b) : a = b := by
  obtain ⟨row, hrow, hkey, rfl⟩ := ha
  obtain ⟨row', hrow', hkey', rfl⟩ := hb
  rw [List.inj_on_of_nodup_map h.identities hrow hrow' (hkey.trans hkey'.symm)]

/-- One identifier is one account's. -/
theorem AccountsSound.user_unique {old : List UserRow} {t : AccountTables} (h : AccountsSound old t)
    {a b : UserRow} (ha : a ∈ t.accounts.users) (hb : b ∈ t.accounts.users) (hid : a.id = b.id) :
    a = b := by
  have : Std.Symm fun a b : UserRow => a.sameKey b = false :=
    ⟨fun a b hab => (sameKey_comm b a).trans hab⟩
  by_contra hne
  exact id_ne_of_sameKey (h.users.forall ha hb hne) hid

/-- Whatever calls run, however their statements interleave, and wherever they fail: the
sign-ins of one identity that succeed return one account, the identity has at most one row,
and an account without a password that was not there before has an identity. -/
theorem one_account {s t : Pool AccountTables AccountCall} {as : List (ℕ × AccountAction)}
    (hs : NotBegun s) (hrun : (accountCalls u sha256).machine.run s as = some t) :
    (∀ i j args args' user user',
      t.locals i = .done (.resolved args user) → t.locals j = .done (.resolved args' user') →
        keyOf args = keyOf args' → user = user') ∧
    (∀ key, t.shared.oidc.identities.countP (fun row => row.key == key) ≤ 1) ∧
    ∀ user ∈ t.shared.accounts.users, user.passwordHash = oidcPasswordHash →
      user ∈ s.shared.accounts.users ∨
        ∃ row ∈ t.shared.oidc.identities, row.userID = user.id := by
  obtain ⟨hsound, hentitled⟩ := run_sound hs hrun
  refine ⟨fun i j args args' user user' hi hj hkey => ?_, fun key => ?_, hsound.bound⟩
  · have huser := hentitled i
    have huser' := hentitled j
    rw [hi] at huser
    rw [hj] at huser'
    have hid : user.id = user'.id := hsound.linked_unique huser.2 (hkey ▸ huser'.2)
    exact hsound.user_unique huser.1 huser'.1 hid
  · have hcount := List.nodup_iff_count_le_one.mp hsound.identities key
    rw [List.count, List.countP_map] at hcount
    exact hcount

end

/-! ## A race -/

def raceProvider : OIDCProviderRow where
  id := default
  slug := lit "idp"
  displayName := lit "IdP"
  issuer := lit "https://idp.io"
  clientID := lit "purels"

/-- One provider, and no account. -/
def raceTables : Pool AccountTables AccountCall where
  shared :=
    { accounts := { roles := [{ name := lit "user" }] }
      oidc := { providers := [raceProvider] } }
  locals _ := .idle

/-- A sign-in of one subject under the name of the moment. -/
def raceArgs (preferredUsername : GoString) : ResolveArgs where
  provider := raceTables.shared.oidc.toProvider raceProvider
  subject := lit "ann"
  claims := { preferredUsername }

def raceID (n : ℕ) : Uuid := Uuid.filled ⟨n % 16, Nat.mod_lt n (Nat.succ_pos 15)⟩

/-- Process `i` takes its next step, with an identifier in case it needs one. -/
def raceTurn (i n : ℕ) : ℕ × AccountAction := (i, .next 0 (raceID n))

/-- Two sign-ins of one identity and a registration.  The registration takes the name of the
first sign-in, and the second inserts its account before the first has committed. -/
def raceRun : List (ℕ × AccountAction) :=
  [(0, .start (.resolve (raceArgs (lit "ann")))), (1, .start (.resolve (raceArgs (lit "bob")))),
    (2, .start (.register ⟨lit "ann", [], by decide⟩)), raceTurn 0 0, raceTurn 1 0, raceTurn 0 0,
    raceTurn 1 0, raceTurn 2 1, raceTurn 0 2, raceTurn 0 0, raceTurn 0 0, raceTurn 0 3,
    raceTurn 1 4, raceTurn 0 0, raceTurn 0 0, raceTurn 1 0, raceTurn 1 0, raceTurn 1 0,
    raceTurn 0 0]

/-- The account that both sign-ins come to. -/
def raceAccount : UserRow where
  id := raceID 3
  username := lit "ann-2"
  passwordHash := oidcPasswordHash

/-- The second sign-in gives its account up for the one of the first. -/
theorem one_account_raced :
    ∃ t user user', (accountCalls .ascii fun _ _ => 0).machine.run raceTables raceRun = some t ∧
      t.locals 0 = .done (.resolved (raceArgs (lit "ann")) user) ∧
      t.locals 1 = .done (.resolved (raceArgs (lit "bob")) user') ∧ user = user' ∧
      t.shared.accounts.users.map (·.username) = [lit "ann", lit "ann-2"] := by
  have hrun : ((accountCalls .ascii fun _ _ => 0).machine.run raceTables raceRun).map
      (fun t => (t.locals 0, t.locals 1, t.shared.accounts.users.map (·.username))) =
      some (.done (.resolved (raceArgs (lit "ann")) raceAccount),
        .done (.resolved (raceArgs (lit "bob")) raceAccount), [lit "ann", lit "ann-2"]) := by
    rfl
  obtain ⟨t, ht, heq⟩ := Option.map_eq_some_iff.mp hrun
  rw [Prod.mk.injEq, Prod.mk.injEq] at heq
  have hs : NotBegun raceTables := ⟨List.Pairwise.nil, List.nodup_nil, rfl, fun _ => rfl⟩
  obtain ⟨hsame, -⟩ := one_account hs ht
  exact ⟨t, _, _, ht, heq.1, heq.2.1, hsame 0 1 _ _ _ _ heq.1 heq.2.1 rfl, heq.2.2⟩

end Purels.Properties
