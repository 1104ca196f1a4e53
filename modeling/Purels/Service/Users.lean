import Purels.Store.Accounts

/-!
# The user service

`UserService.Update`, over the account tables.  The identifiers are texts: the
actor's as the session carries it, the target's as the path has it.
-/

namespace Purels.Service

open Go Store

/-- `domain.UpdateUserRequest`: an omitted field is left alone. -/
structure UpdateUserRequest where
  role : Option GoString := none
  disabled : Option Bool := none
  deriving DecidableEq

namespace UserService

/-- `UserService.Update`. -/
def Update (s : AccountStore) (actorID targetID : GoString) (req : UpdateUserRequest) :
    Except ServiceError Unit × AccountStore :=
  if actorID = targetID then (.error (.invalid "cannot change your own account"), s)
  else if req.role = none ∧ req.disabled = none then (.error (.invalid "nothing to update"), s)
  else
    match req.role with
    | none => s.UpdateUser targetID none req.disabled
    | some name =>
      match s.GetRole name with
      | .error .notFound => (.error (.unknownRole name), s)
      | .error e => (.error e, s)
      | .ok _ => s.UpdateUser targetID (some name) req.disabled

end UserService

end Purels.Service
