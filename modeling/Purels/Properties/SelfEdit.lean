import Purels.Service.Users

/-!
# Editing one's own account

* `ownFields`: the role and the disabled flag of an account.
* `ChangesSelf`: the path spells the actor's identifier in another way than the
  session does, and the edit is one that goes through and changes something.
* `self_edit_iff`, and `self_disable`, an edit of the actor's own row.
-/

namespace Purels.Properties

open Go Store AccountStore Service

/-- The role and the disabled flag of the account's row. -/
def ownFields (s : AccountStore) (id : Uuid) : List (GoString × Bool) :=
  (s.users.filter (·.id == id)).map fun user => (user.role, user.disabled)

/-- The role of the request exists. -/
def RoleKnown (s : AccountStore) (req : UpdateUserRequest) : Prop :=
  ∀ name, req.role = some name → ∃ role, s.GetRole name = .ok role

/-- The edit of the account goes through and changes it. -/
def EditsOwn (s : AccountStore) (actor : Uuid) (req : UpdateUserRequest) : Prop :=
  let edit : UserEdit := ⟨actor, req.role, req.disabled⟩
  RoleKnown s req ∧ edit.exec s = .ok () ∧ (edit.apply s).requireCapabilityHolders = .ok () ∧
    ownFields (edit.apply s) actor ≠ ownFields s actor

/-- The path is another spelling of the actor's identifier, of an edit that takes. -/
def ChangesSelf (s : AccountStore) (actor : Uuid) (target : GoString) (req : UpdateUserRequest) :
    Prop :=
  target ≠ actor.toText ∧ LinkStore.uuidParam target = .ok actor ∧ EditsOwn s actor req

/-- An edit of another account. -/
theorem ownFields_apply {s : AccountStore} {edit : UserEdit} {id : Uuid} (hne : edit.id ≠ id) :
    ownFields (edit.apply s) id = ownFields s id := by
  unfold ownFields UserEdit.apply
  have hkept : ∀ user : UserRow, user.id ≠ edit.id →
      (if user.id == edit.id then edit.set user else user) = user := by
    intro user hother
    rw [if_neg (by simpa using hother)]
  induction s.users with
  | nil => rfl
  | cons user users ih =>
    simp only [List.map_cons, List.filter_cons]
    by_cases huser : user.id = edit.id
    · have hset : (if user.id == edit.id then edit.set user else user) = edit.set user := by
        rw [if_pos (by simpa using huser)]
      have hother : ¬ (user.id == id) := by simpa [huser] using hne
      have hother' : ¬ ((edit.set user).id == id) := hother
      rw [hset, if_neg hother, if_neg hother']
      exact ih
    · rw [hkept user huser]
      split_ifs
      · rw [List.map_cons, List.map_cons, ih]
      · exact ih

/-- What the transaction of the store does to the actor's row. -/
theorem ownFields_UpdateUser (s : AccountStore) (actor : Uuid) (target : GoString)
    (req : UpdateUserRequest) :
    ownFields (s.UpdateUser target req.role req.disabled).2 actor = ownFields s actor ↔
      ¬ (LinkStore.uuidParam target = .ok actor ∧
        (⟨actor, req.role, req.disabled⟩ : UserEdit).exec s = .ok () ∧
        ((⟨actor, req.role, req.disabled⟩ : UserEdit).apply s).requireCapabilityHolders = .ok () ∧
        ownFields ((⟨actor, req.role, req.disabled⟩ : UserEdit).apply s) actor ≠
          ownFields s actor) := by
  rcases s.UpdateUser_cases target req.role req.disabled with
    ⟨e, heq, hrefused⟩ | ⟨id, hparam, hexec, hheld, heq⟩ <;> rw [heq]
  · exact iff_of_true rfl fun h => hrefused actor h.1 h.2.1 h.2.2.1
  by_cases hid : id = actor
  · subst hid
    constructor
    · intro hsame h
      exact h.2.2.2 hsame
    · intro h
      by_contra hdiffers
      exact h ⟨hparam, hexec, hheld, hdiffers⟩
  · -- The row of another account is edited.
    refine iff_of_true (ownFields_apply hid) fun h => hid ?_
    rw [hparam] at h
    exact Except.ok.inj h.1

/-- An edit that names nothing changes nothing. -/
theorem ownFields_apply_nothing (s : AccountStore) (actor : Uuid) :
    ownFields ((⟨actor, none, none⟩ : UserEdit).apply s) actor = ownFields s actor := by
  have hset : ∀ user : UserRow, (⟨actor, none, none⟩ : UserEdit).set user = user := fun _ => rfl
  simp [ownFields, UserEdit.apply, hset]

/-- An account changes its own role or disabled flag exactly when the path spells its
identifier in a way of its own and the edit takes. -/
theorem self_edit_iff (s : AccountStore) (actor : Uuid) (target : GoString)
    (req : UpdateUserRequest) :
    ownFields (UserService.Update s actor.toText target req).2 actor = ownFields s actor ↔
      ¬ ChangesSelf s actor target req := by
  unfold UserService.Update
  by_cases hsame : actor.toText = target
  · rw [if_pos hsame]
    exact iff_of_true rfl fun h => h.1 hsame.symm
  rw [if_neg hsame]
  by_cases hnothing : req.role = none ∧ req.disabled = none
  · rw [if_pos hnothing]
    refine iff_of_true rfl fun h => h.2.2.2.2.2 ?_
    rw [hnothing.1, hnothing.2]
    exact ownFields_apply_nothing s actor
  rw [if_neg hnothing]
  have hstore := ownFields_UpdateUser s actor target req
  have hchanges : ∀ hknown : RoleKnown s req, (¬ ChangesSelf s actor target req ↔ _) :=
    fun hknown => Iff.trans
      (not_congr ⟨fun h => ⟨h.2.1, h.2.2.2⟩, fun h => ⟨Ne.symm hsame, h.1, hknown, h.2⟩⟩) hstore.symm
  cases hrole : req.role with
  | none =>
    have hknown : RoleKnown s req := by simp [RoleKnown, hrole]
    rw [hchanges hknown, hrole]
  | some name =>
    have hunknown : ∀ e, s.GetRole name = .error e → ¬ ChangesSelf s actor target req := by
      intro e he h
      obtain ⟨role, hok⟩ := h.2.2.1 name hrole
      rw [he] at hok
      cases hok
    cases hget : s.GetRole name with
    | ok role =>
      have hknown : RoleKnown s req := by
        intro other hother
        rw [hrole] at hother
        obtain rfl := Option.some.inj hother
        exact ⟨role, hget⟩
      rw [hchanges hknown, hrole]
      simp only [hget]
    | error e =>
      refine iff_of_true ?_ (hunknown e hget)
      simp only [hget]
      cases e <;> rfl

/-! ## Two administrators -/

def twoAdmins : AccountStore where
  users := [{ id := default, username := lit "root", role := lit "admin" },
    { id := ⟨List.replicate 32 ⟨1, by decide⟩, List.length_replicate ..⟩, username := lit "ann", role := lit "admin" }]
  roles := [⟨lit "admin", [.usersManage, .rolesManage], true⟩]

/-- An administrator disables itself, by its identifier without hyphens. -/
theorem self_disable :
    ¬ ∀ (s : AccountStore) (actor : Uuid) (target : GoString) (req : UpdateUserRequest),
      ownFields (UserService.Update s actor.toText target req).2 actor = ownFields s actor := by
  intro hclaim
  have hsame := hclaim twoAdmins default (lit "00000000000000000000000000000000")
    { disabled := some true }
  exact absurd hsame (by decide)

end Purels.Properties
