import Purels.Store.Accounts
import Purels.Store.Oidc

/-!
# Accounts of external identities

The tables that a first sign-in writes, and the rows that transactions have inserted and not
yet committed.

* `AccountTables`: what is committed, and the open transactions of `ProvisionOIDCUser`.
* `registerUser`, `insertUser`, `insertIdentity`: an insert goes through, fails at a key that is
  committed, or waits (`none`) for the open transaction that has inserted the same key.
* `commitAccount`, `rollbackAccount`: the two ends of a transaction.
-/

namespace Purels.Store

open Go

/-! ## Tables -/

/-- The password hash of an account that no password opens. -/
def oidcPasswordHash : GoString := lit "!oidc"

/-- What an open transaction has inserted. -/
structure OpenAccount where
  user : UserRow
  identity : Option OIDCIdentityRow := none
  deriving DecidableEq

/-- The committed rows, and the open transactions. -/
structure AccountTables where
  accounts : AccountStore
  oidc : OIDCStore
  opened : List OpenAccount := []
  deriving DecidableEq

/-- The two rows have a key of `admin_users` in common. -/
def UserRow.sameKey (a b : UserRow) : Bool := a.id == b.id || a.username == b.username

/-- The unique key of `oidc_identities`. -/
def OIDCIdentityRow.key (row : OIDCIdentityRow) : Uuid × GoString := (row.providerID, row.subject)

/-- `GetUserByID`: an enabled account with its role. -/
def AccountStore.GetUserByID (s : AccountStore) (id : Uuid) : Except ServiceError UserRow :=
  match s.users.find? fun user => user.id == id && !user.disabled with
  | none => .error .notFound
  | some user => if s.roles.any (·.name == user.role) then .ok user else .error .notFound

/-- What `FindUser` says of a name. -/
def AccountStore.taken (s : AccountStore) (username : GoString) : Bool :=
  s.users.any (·.username == username)

namespace AccountTables

/-! ## Statements -/

/-- The insert into `admin_users`: the accounts with the row. -/
def insertedUser (t : AccountTables) (user : UserRow) : Option (Except ServiceError AccountStore) :=
  match t.accounts.CreateUser user with
  | .error e => some (.error e)
  | .ok accounts =>
    if t.opened.any fun tx => tx.user.sameKey user then none else some (.ok accounts)

/-- `CreateUser`, which commits by itself. -/
def registerUser (t : AccountTables) (user : UserRow) :
    Option (Except ServiceError AccountTables) :=
  (t.insertedUser user).map fun result => result.map fun accounts => { t with accounts }

/-- The first insert of `ProvisionOIDCUser`. -/
def insertUser (t : AccountTables) (user : UserRow) : Option (Except ServiceError AccountTables) :=
  (t.insertedUser user).map fun result =>
    result.map fun _ => { t with opened := t.opened ++ [⟨user, none⟩] }

/-- The second insert, by the transaction of the account `id`. -/
def insertIdentity (t : AccountTables) (id : Uuid) (providerID : Uuid) (subject email : GoString)
    (now : Instant) : Option (Except ServiceError AccountTables) :=
  if !storableText subject || !storableText email then some (.error .database)
  else if t.oidc.identities.any fun row => row.key == (providerID, subject) then
    some (.error .conflict)
  else if t.opened.any fun tx =>
      tx.user.id != id && tx.identity.any fun row => row.key == (providerID, subject) then none
  else if !t.oidc.providers.any (·.id == providerID) then
    some (.error (.invalid "referenced record does not exist"))
  else
    let row : OIDCIdentityRow :=
      { id := t.oidc.nextID, providerID, userID := id, subject, email := nullableText email
        lastLoginAt := some now }
    some (.ok { t with
      oidc := { t.oidc with nextID := t.oidc.nextID + 1 }
      opened := t.opened.map fun tx =>
        if tx.user.id == id then { tx with identity := some row } else tx })

/-- The end of a transaction that writes nothing. -/
def rollbackAccount (t : AccountTables) (id : Uuid) : AccountTables :=
  { t with opened := t.opened.filter fun tx => tx.user.id != id }

/-- The end of one that writes both rows. -/
def commitAccount (t : AccountTables) (id : Uuid) : AccountTables :=
  match t.opened.find? fun tx => tx.user.id == id with
  | none => t
  | some tx =>
    { accounts := { t.accounts with users := t.accounts.users ++ [tx.user] }
      oidc := { t.oidc with identities := t.oidc.identities ++ tx.identity.toList }
      opened := (t.rollbackAccount id).opened }

end AccountTables

end Purels.Store
