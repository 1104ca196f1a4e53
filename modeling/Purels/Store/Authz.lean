import Purels.Lib.Processes
import Purels.Store.Accounts

/-!
# The guarded transactions, statement by statement

`UpdateUser` and `UpdateRoleScopes` as processes over the committed tables and the
advisory lock.  A transaction sees the committed tables with its own write on top;
nothing is seen of it before it commits.

* `Authz`: the shared state.  `Tx`: how far a transaction has come.
* `txStep` and `authz`: the statements.
-/

namespace Purels.Store

/-- The committed tables, and whether some transaction has the advisory lock. -/
structure Authz where
  db : AccountStore
  locked : Bool := false

/-- Where a transaction, or the insert of an account, stands. -/
inductive Tx where
  | idle
  /-- Waits for the lock. -/
  | lock (request : AccountStore.AuthzRequest)
  /-- Has the lock and runs its UPDATE. -/
  | update (request : AccountStore.AuthzRequest)
  /-- Counts the holders of the scopes left to check, and commits when none is left. -/
  | check (write : AccountStore.AuthzWrite) (left : List Scope)
  /-- Inserts an account. -/
  | create (user : UserRow)
  | done (res : Except ServiceError Unit)

/-- A label: a process begins, runs its next statement, or is aborted before it. -/
inductive TxAction where
  | update (request : AccountStore.AuthzRequest)
  | create (user : UserRow)
  | next
  | abort

/-- The transaction has the lock. -/
def Tx.inside : Tx → Bool
  | .update _ | .check _ _ => true
  | _ => false

/-- The next statement.  The end of a transaction gives the lock back. -/
def txStep (w : Authz) : Tx → Option (Authz × Tx)
  | .idle | .done _ => none
  | .lock request => if w.locked then none else some ({ w with locked := true }, .update request)
  | .update request =>
    match request.exec w.db with
    | .error e => some ({ w with locked := false }, .done (.error e))
    | .ok write => some (w, .check write AccountStore.requiredScopes)
  | .check write (required :: left) =>
    if (write.apply w.db).holders required = 0 then
      some ({ w with locked := false }, .done (.error .lastCapabilityHolder))
    else some (w, .check write left)
  | .check write [] => some ({ db := write.apply w.db, locked := false }, .done (.ok ()))
  | .create user =>
    match w.db.CreateUser user with
    | .error e => some (w, .done (.error e))
    | .ok db => some ({ w with db }, .done (.ok ()))

/-- The transactions and the inserts as processes. -/
def authz : Lib.Process Authz Tx TxAction where
  step w tx
    | .update request =>
      match tx with
      | .idle | .done _ => some (w, .lock request)
      | _ => none
    | .create user =>
      match tx with
      | .idle | .done _ => some (w, .create user)
      | _ => none
    | .next => txStep w tx
    | .abort =>
      match tx with
      | .idle | .done _ => none
      | _ => some ({ w with locked := w.locked && !tx.inside }, .done (.error .database))

end Purels.Store
