import Purels.Http.Tokens
import Purels.Store.Audit

/-!
# What the handlers record

After a request that administers credentials has succeeded, its handler appends an entry to the
audit trail in a statement of its own.

* `AuditEvent` and `AdminRequest.event`: what a handler passes to `Record`.
* `Record`: a failed insert is logged and forgotten.
* `AuditedCall` and `auditedCalls`: the requests, with the insert as a step after the serving.
-/

namespace Purels.Http

open Go Security Store Service Lib

/-- What a handler passes to `Record`. -/
structure AuditEvent where
  action : GoString
  resourceType : GoString
  resourceID : GoString := []
  metadata : Metadata := []
  deriving DecidableEq

/-- The fields of an edit that are given. -/
def updateMetadata (req : UpdateUserRequest) : Metadata :=
  (req.role.map fun role => (lit "role", MetadataValue.text role)).toList ++
    (req.disabled.map fun disabled => (lit "disabled", MetadataValue.flag disabled)).toList

/-- What the handler of the route records after this answer. -/
def AdminRequest.event : AdminRequest → AdminResponse → Option AuditEvent
  | .updateUser id req, .noContent =>
    some ⟨lit "user.update", lit "user", id, updateMetadata req⟩
  | .updateRole name req, .noContent =>
    some ⟨lit "role.update", lit "role", name,
      [(lit "scopes", .texts req.scopes), (lit "unrestricted", .flag req.unrestricted)]⟩
  | .createToken _, .created token =>
    some ⟨lit "token.create", lit "token", token.id.toText, [(lit "name", .text token.name)]⟩
  | .revokeToken id, .noContent => some ⟨lit "token.revoke", lit "token", id, []⟩
  | .logout, _ => some ⟨lit "session.logout", lit "session", [], []⟩
  | _, _ => none

/-- `Record`: the actor and the address are those of the request. -/
def Record (hash : GoString → Option (List UInt8)) (s : AuditStore) (caller : Caller)
    (ip : GoString) (event : AuditEvent) (id : Uuid) (now : Instant) : AuditStore :=
  let resource := if event.resourceID = [] then none else some event.resourceID
  let ipHash := if ip = [] then none else hash ip
  match s.CreateAuditLog caller.actorID event.action event.resourceType resource event.metadata
      ipHash id now with
  | .error _ => s
  | .ok s => s

/-! ## Processes -/

/-- Where a request stands. -/
inductive AuditedCall where
  | request (call : TokenCall)
  /-- Is served, and is to be recorded before it is answered. -/
  | recording (caller : Caller) (event : AuditEvent) (response : AdminResponse)

/-- A label: a step of a request, or its insert, with the address of the request and the
identifier that the table draws. -/
inductive AuditedAction where
  | request (action : TokenAction)
  | record (ip : GoString) (id : Uuid) (now : Instant)

/-- What a step records: it serves a request, and the request succeeds. -/
def servedEvent (crypto : Crypto) (s : CredentialStore) :
    TokenCall → TokenAction → Option (Caller × AuditEvent)
  | .admitted caller credentials request, .serve draw now =>
    (request.event (handleAdmin crypto s caller credentials draw now request).1).map (caller, ·)
  | _, _ => none

/-- Where a request stands after a step that ended in `call`. -/
def auditedCall (event : Option (Caller × AuditEvent)) (call : TokenCall) : AuditedCall :=
  match event, call with
  | some (caller, event), .done response => .recording caller event response
  | _, call => .request call

/-- The requests as processes. -/
def auditedCalls (u : Unicode) (crypto : Crypto) (hash : GoString → Option (List UInt8)) :
    Process AuditStore AuditedCall AuditedAction where
  step s call
    | .request action =>
      match call with
      | .recording .. => none
      | .request call =>
        ((tokenCalls u crypto).step s.toCredentialStore call action).map fun r =>
          ({ s with toCredentialStore := r.1 },
            auditedCall (servedEvent crypto s.toCredentialStore call action) r.2)
    | .record ip id now =>
      match call with
      | .request _ => none
      | .recording caller event response =>
        if s.auditLogs.any (·.id == id) then none
        else some (Record hash s caller ip event id now, .request (.done response))

end Purels.Http
