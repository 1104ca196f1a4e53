import Purels.Store.Links

/-!
# Accounts and roles

The tables `admin_users` and `roles`, and the statements on them.

* `UserRow`, `RoleRow`, `AccountStore`: the tables, without the columns that only
  the account list shows.
* `holders`: the accounts that hold a capability, by a join of both tables.
* `UserEdit`, `RoleEdit`: what the two guarded transactions write.
* `UpdateUser`, `UpdateRoleScopes`: each transaction run alone.
* `holders_insert` and its companions: what the writes leave of the holders.
-/

namespace Purels.Store

open Go LinkStore

/-! ## Tables -/

/-- A row of `admin_users`. -/
structure UserRow where
  id : Uuid
  username : GoString
  passwordHash : GoString := []
  role : GoString := lit "user"
  disabled : Bool := false
  totpSecret : Option (List UInt8) := none
  totpConfirmedAt : Option Instant := none
  deriving DecidableEq

/-- A row of `roles`. -/
structure RoleRow where
  name : GoString
  scopes : List Scope := []
  unrestricted : Bool := false
  deriving DecidableEq

structure AccountStore where
  users : List UserRow := []
  roles : List RoleRow := []
  deriving DecidableEq

/-- The names that the check of `admin_users.role` admits. -/
def presetRoles : List GoString := [lit "admin", lit "operator", lit "readonly", lit "user"]

namespace AccountStore

/-! ## Capabilities -/

/-- The enabled accounts whose role holds the scope. -/
def holders (s : AccountStore) (required : Scope) : Nat :=
  s.users.countP fun user =>
    !user.disabled && s.roles.any fun role => role.name == user.role && role.scopes.contains required

/-- The capabilities the console cannot be administered without, in the order they
are checked. -/
def requiredScopes : List Scope := [.usersManage, .rolesManage]

/-- `requireCapabilityHolders`. -/
def requireCapabilityHolders (s : AccountStore) : Except ServiceError Unit :=
  if requiredScopes.any fun required => s.holders required == 0 then .error .lastCapabilityHolder
  else .ok ()

/-! ## Reads -/

/-- `GetRole`. -/
def GetRole (s : AccountStore) (name : GoString) : Except ServiceError RoleRow :=
  if !storableText name then .error .database
  else
    match s.roles.find? fun role => role.name == name with
    | none => .error .notFound
    | some role => .ok role

/-! ## Writes -/

/-- `UPDATE admin_users SET role=COALESCE($2, role), disabled=COALESCE($3, disabled)`. -/
structure UserEdit where
  id : Uuid
  role : Option GoString
  disabled : Option Bool
  deriving DecidableEq

/-- `UPDATE roles SET scopes=$2, unrestricted=$3`. -/
structure RoleEdit where
  name : GoString
  scopes : List Scope
  unrestricted : Bool
  deriving DecidableEq

def UserEdit.set (edit : UserEdit) (user : UserRow) : UserRow :=
  { user with
    role := edit.role.getD user.role
    disabled := edit.disabled.getD user.disabled }

def UserEdit.apply (edit : UserEdit) (s : AccountStore) : AccountStore :=
  { s with users := s.users.map fun user => if user.id == edit.id then edit.set user else user }

def RoleEdit.apply (edit : RoleEdit) (s : AccountStore) : AccountStore :=
  { s with
    roles := s.roles.map fun role =>
      if role.name == edit.name then
        { role with scopes := edit.scopes, unrestricted := edit.unrestricted }
      else role }

/-- The role of an edit satisfies the check and the foreign key of its column. -/
def UserEdit.roleError (edit : UserEdit) (s : AccountStore) : Option ServiceError :=
  match edit.role with
  | none => none
  | some name =>
    if !storableText name || !presetRoles.contains name then some .database
    else if s.roles.any (·.name == name) then none
    else some (.invalid "referenced record does not exist")

/-- The UPDATE of `UpdateUser`. -/
def UserEdit.exec (edit : UserEdit) (s : AccountStore) : Except ServiceError Unit :=
  if !s.users.any (·.id == edit.id) then .error .notFound
  else
    match edit.roleError s with
    | some e => .error e
    | none => .ok ()

/-- The UPDATE of `UpdateRoleScopes`. -/
def RoleEdit.exec (edit : RoleEdit) (s : AccountStore) : Except ServiceError Unit :=
  if !storableText edit.name then .error .database
  else if s.roles.any (·.name == edit.name) then .ok ()
  else .error .notFound

/-- What a guarded transaction is asked to do. -/
inductive AuthzRequest where
  | updateUser (id : GoString) (role : Option GoString) (disabled : Option Bool)
  | updateRoleScopes (edit : RoleEdit)
  deriving DecidableEq

/-- What its UPDATE writes. -/
inductive AuthzWrite where
  | user (edit : UserEdit)
  | role (edit : RoleEdit)
  deriving DecidableEq

def AuthzWrite.apply (s : AccountStore) : AuthzWrite → AccountStore
  | .user edit => edit.apply s
  | .role edit => edit.apply s

/-- The UPDATE: it fails, or touches a row. -/
def AuthzRequest.exec (s : AccountStore) : AuthzRequest → Except ServiceError AuthzWrite
  | .updateUser id role disabled =>
    match uuidParam id with
    | .error e => .error e
    | .ok id => ((⟨id, role, disabled⟩ : UserEdit).exec s).map fun _ => .user ⟨id, role, disabled⟩
  | .updateRoleScopes edit => (edit.exec s).map fun _ => .role edit

/-- The transaction with no other one about. -/
def AuthzRequest.run (s : AccountStore) (request : AuthzRequest) :
    Except ServiceError Unit × AccountStore :=
  match request.exec s with
  | .error e => (.error e, s)
  | .ok write =>
    match (write.apply s).requireCapabilityHolders with
    | .error e => (.error e, s)
    | .ok () => (.ok (), write.apply s)

/-- `UpdateUser`. -/
def UpdateUser (s : AccountStore) (id : GoString) (role : Option GoString) (disabled : Option Bool) :
    Except ServiceError Unit × AccountStore :=
  AuthzRequest.run s (.updateUser id role disabled)

/-- `UpdateRoleScopes`. -/
def UpdateRoleScopes (s : AccountStore) (edit : RoleEdit) : Except ServiceError Unit × AccountStore :=
  AuthzRequest.run s (.updateRoleScopes edit)

/-- `CreateUser`: the keys are unique and the role exists. -/
def CreateUser (s : AccountStore) (user : UserRow) : Except ServiceError AccountStore :=
  if s.users.any fun other => other.id == user.id || other.username == user.username then
    .error .conflict
  else if !(presetRoles.contains user.role && s.roles.any (·.name == user.role)) then
    .error .database
  else .ok { s with users := s.users ++ [user] }

/-! ## Holders -/

/-- One more account takes no capability away. -/
theorem holders_append (s : AccountStore) (user : UserRow) (required : Scope) :
    s.holders required ≤ holders { s with users := s.users ++ [user] } required := by
  unfold holders
  rw [List.countP_append]
  exact Nat.le_add_right _ _

/-- An account that is made beside a transaction does not spoil what its write keeps. -/
theorem holders_apply_append (s : AccountStore) (user : UserRow) (write : AuthzWrite)
    (required : Scope) :
    (write.apply s).holders required ≤
      (write.apply { s with users := s.users ++ [user] }).holders required := by
  cases write with
  | user edit =>
    have happly : edit.apply { s with users := s.users ++ [user] } =
        { edit.apply s with
          users := (edit.apply s).users ++ [if user.id == edit.id then edit.set user else user] } := by
      simp only [UserEdit.apply, List.map_append, List.map_cons, List.map_nil]
    show (edit.apply s).holders required ≤ _
    rw [AuthzWrite.apply, happly]
    exact holders_append (edit.apply s) _ required
  | role edit => exact holders_append (edit.apply s) user required

theorem CreateUser_ok {s t : AccountStore} {user : UserRow} (h : s.CreateUser user = .ok t) :
    t = { s with users := s.users ++ [user] } := by
  unfold CreateUser at h
  split_ifs at h
  exact (Except.ok.inj h).symm

/-- `UpdateUser` fails and changes nothing, or its three statements go through. -/
theorem UpdateUser_cases (s : AccountStore) (id : GoString) (role : Option GoString)
    (disabled : Option Bool) :
    (∃ e, s.UpdateUser id role disabled = (.error e, s) ∧
      ∀ uid, uuidParam id = .ok uid → (⟨uid, role, disabled⟩ : UserEdit).exec s = .ok () →
        ((⟨uid, role, disabled⟩ : UserEdit).apply s).requireCapabilityHolders ≠ .ok ()) ∨
    ∃ uid, uuidParam id = .ok uid ∧ (⟨uid, role, disabled⟩ : UserEdit).exec s = .ok () ∧
      ((⟨uid, role, disabled⟩ : UserEdit).apply s).requireCapabilityHolders = .ok () ∧
      s.UpdateUser id role disabled = (.ok (), (⟨uid, role, disabled⟩ : UserEdit).apply s) := by
  unfold UpdateUser AuthzRequest.run
  cases hparam : uuidParam id with
  | error e =>
    refine .inl ⟨e, by simp [AuthzRequest.exec, hparam], ?_⟩
    intro uid huid
    cases huid
  | ok uid =>
    cases hexec : (⟨uid, role, disabled⟩ : UserEdit).exec s with
    | error e =>
      refine .inl ⟨e, by simp [AuthzRequest.exec, hparam, hexec, Except.map], ?_⟩
      intro other hother hok
      obtain rfl := Except.ok.inj hother
      rw [hexec] at hok
      cases hok
    | ok _ =>
      have hwrite : AuthzRequest.exec s (.updateUser id role disabled) =
          .ok (.user ⟨uid, role, disabled⟩) := by
        simp [AuthzRequest.exec, hparam, hexec, Except.map]
      rw [hwrite]
      cases hheld : ((⟨uid, role, disabled⟩ : UserEdit).apply s).requireCapabilityHolders with
      | error e =>
        refine .inl ⟨e, by simp [AuthzWrite.apply, hheld], ?_⟩
        intro other hother _ hok
        obtain rfl := Except.ok.inj hother
        rw [hheld] at hok
        cases hok
      | ok _ => exact .inr ⟨uid, rfl, hexec, hheld, by simp [AuthzWrite.apply, hheld]⟩

end AccountStore

end Purels.Store
