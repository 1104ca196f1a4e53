import Purels.Http.Audit
import Purels.Lib.HandOver
import Purels.Properties.LiveCredentials

/-!
# The audit trail is complete but for roles

Requests are served in any order, and each is recorded in a statement of its own after others
may have been served.  The trail is append-only; an entry of a role edit names the role in a
column that takes identifiers, and is lost.

* `servedAt`, `recordedAt`, `outstanding`: what is to be recorded, and when it is.
* `event_cases`: what the insert makes of the event of a request that succeeded.
* `AuditSound`: what every step keeps.
* `audit_trail`: the entries are those of the requests that succeeded, role edits apart.
* `audit_pages`: whoever pages through the trail meanwhile misses no entry.
-/

namespace Purels.Properties

open Go Security Store Service Http Lib AuditStore

/-! ## Entries -/

/-- What an entry says. -/
structure TrailEntry where
  actor : Option Uuid
  action : GoString
  resourceType : GoString
  resourceID : Option Uuid
  metadata : Metadata
  deriving DecidableEq

/-- What a row says. -/
def rowEntry (row : AuditRow) : TrailEntry where
  actor := row.userID
  action := row.action
  resourceType := row.resourceType.getD []
  resourceID := row.resourceID
  metadata := row.metadata.getD []

/-- What is to be said of the event of a request. -/
def eventEntry (x : Caller × AuditEvent) : TrailEntry where
  actor := x.1.actorID
  action := x.2.action
  resourceType := x.2.resourceType
  resourceID := Uuid.parse x.2.resourceID
  metadata := x.2.metadata

/-- The insert takes the event, and keeps its texts as they are. -/
structure Writable (event : AuditEvent) : Prop where
  resource : event.resourceID = [] ∨ (Uuid.parse event.resourceID).isSome
  action : fitsColumn event.action
  resourceType : fitsColumn event.resourceType
  named : event.resourceType ≠ []
  metadata : storableJson event.metadata
  valid : ∀ field ∈ event.metadata, validString field.1 ∧ ∀ s ∈ field.2.strings, validString s

/-- The event names a resource by a text that is no identifier. -/
structure Misnamed (event : AuditEvent) : Prop where
  named : event.resourceID ≠ []
  notID : Uuid.parse event.resourceID = none

/-- Valid texts are stored as they are. -/
theorem marshal_of_valid {metadata : Metadata}
    (h : ∀ field ∈ metadata, validString field.1 ∧ ∀ s ∈ field.2.strings, validString s) :
    metadata.map (fun field => (jsonText field.1, field.2.marshal)) = metadata := by
  have hfield : ∀ field ∈ metadata, (jsonText field.1, field.2.marshal) = field := by
    rintro ⟨key, value⟩ hmem
    obtain ⟨hkey, hvalue⟩ := h _ hmem
    rw [jsonText_of_valid hkey]
    cases value with
    | text s => rw [MetadataValue.marshal, jsonText_of_valid (hvalue s (List.mem_singleton_self s))]
    | texts items =>
      have hitems : items.map jsonText = items :=
        (List.map_congr_left fun s hs => jsonText_of_valid (hvalue s hs)).trans (List.map_id' _)
      rw [MetadataValue.marshal, hitems]
    | flag b => rfl
  exact (List.map_congr_left hfield).trans (List.map_id' _)

section

variable {u : Unicode} {crypto : Crypto} {hash : GoString → Option (List UInt8)}

theorem Record_misnamed {event : AuditEvent} (h : Misnamed event) (s : AuditStore)
    (caller : Caller) (ip : GoString) (id : Uuid) (now : Instant) :
    Record hash s caller ip event id now = s := by
  simp only [Record, if_neg h.named, CreateAuditLog, resourceParam, h.notID, Option.map_none]

theorem Record_writable {event : AuditEvent} (h : Writable event) {s : AuditStore}
    {caller : Caller} (hactor : ∀ userID ∈ caller.actorID, (s.userRow userID).isSome)
    (ip : GoString) (id : Uuid) (now : Instant) :
    ∃ row, row.id = id ∧ rowEntry row = eventEntry (caller, event) ∧
      Record hash s caller ip event id now = { s with auditLogs := s.auditLogs ++ [row] } := by
  have hresource : resourceParam (if event.resourceID = [] then none else some event.resourceID) =
      some (Uuid.parse event.resourceID) := by
    split_ifs with hnone
    · rw [hnone]
      decide
    · obtain ⟨resource, hparse⟩ := Option.isSome_iff_exists.mp (h.resource.resolve_left hnone)
      rw [resourceParam, hparse]
      rfl
  have hexists : (caller.actorID.any fun userID => (s.userRow userID).isNone) = false := by
    cases hcaller : caller.actorID with
    | none => rfl
    | some userID => simpa using hactor userID hcaller
  refine ⟨{
    id := id
    userID := caller.actorID
    action := event.action
    resourceType := if event.resourceType = [] then none else some event.resourceType
    resourceID := Uuid.parse event.resourceID
    metadata := if event.metadata = [] then none else
      some (event.metadata.map fun field => (jsonText field.1, field.2.marshal))
    ipHash := if ip = [] then none else hash ip
    createdAt := now }, rfl, ?_, ?_⟩
  · simp only [rowEntry, eventEntry, if_neg h.named, Option.getD_some, marshal_of_valid h.valid]
    split_ifs with hempty
    · simp [hempty]
    · rfl
  · simp only [Record, CreateAuditLog, hresource, h.action, h.resourceType, h.metadata, hexists,
      Bool.not_true, Bool.or_false, Bool.false_eq_true, if_false]

/-! ## Events of requests that succeeded -/

/-- The roles are presets: no statement makes another. -/
def PresetRoles (s : AccountStore) : Prop := ∀ role ∈ s.roles, role.name ∈ presetRoles

theorem preset_text {name : GoString} (h : name ∈ presetRoles) :
    name ≠ [] ∧ Uuid.parse name = none ∧ storableText name := by
  have hall : ∀ name ∈ presetRoles,
      name ≠ [] ∧ Uuid.parse name = none ∧ storableText name := by
    decide
  exact hall name h

theorem UpdateUser_ok {s : AccountStore} {id : GoString} {role : Option GoString}
    {disabled : Option Bool} (h : (s.UpdateUser id role disabled).1 = .ok ()) :
    (Uuid.parse id).isSome := by
  rcases s.UpdateUser_cases id role disabled with ⟨e, heq, -⟩ | ⟨uid, hparam, -⟩
  · rw [heq] at h
    cases h
  · unfold LinkStore.uuidParam at hparam
    split_ifs at hparam
    split at hparam
    · cases hparam
    · simp [*]

theorem UserService_ok {s : AccountStore} (hroles : PresetRoles s) {actorID targetID : GoString}
    {req : UpdateUserRequest} (h : (UserService.Update s actorID targetID req).1 = .ok ()) :
    (Uuid.parse targetID).isSome ∧ ∀ name ∈ req.role, name ∈ presetRoles := by
  unfold UserService.Update at h
  split_ifs at h
  cases hrole : req.role with
  | none =>
    rw [hrole] at h
    exact ⟨UpdateUser_ok h, by simp⟩
  | some name =>
    rw [hrole] at h
    dsimp only at h
    cases hget : s.GetRole name with
    | error e =>
      rw [hget] at h
      cases e <;> cases h
    | ok role =>
      rw [hget] at h
      refine ⟨UpdateUser_ok h, fun other hother => ?_⟩
      obtain rfl := Option.some.inj hother
      unfold AccountStore.GetRole at hget
      split_ifs at hget
      split at hget
      · cases hget
      · rename_i found hfind
        have hname := List.find?_some hfind
        rw [beq_iff_eq] at hname
        exact hname ▸ hroles found (List.mem_of_find?_eq_some hfind)

theorem RoleService_ok {s : AccountStore} (hroles : PresetRoles s) {name : GoString}
    {req : UpdateRoleRequest} (h : (RoleService.Update s name req).1 = .ok ()) :
    name ∈ presetRoles := by
  unfold RoleService.Update at h
  split at h
  · cases h
  · by_cases hthere : s.roles.any (·.name == name)
    · obtain ⟨role, hrole, hname⟩ := List.any_eq_true.mp hthere
      exact beq_iff_eq.mp hname ▸ hroles role hrole
    · rw [Bool.not_eq_true] at hthere
      simp only [AccountStore.UpdateRoleScopes, AccountStore.AuthzRequest.run,
        AccountStore.AuthzRequest.exec, AccountStore.RoleEdit.exec, hthere, Bool.false_eq_true,
        if_false] at h
      split_ifs at h
      · cases h
      · cases h

theorem answer_noContent {r : Except ServiceError Unit} (h : answer r = .noContent) :
    r = .ok () := by
  cases r with
  | error e => cases h
  | ok _ => rfl

/-- The fixed texts of an event that is not a role's. -/
def FixedTexts (action resourceType : GoString) : Prop :=
  action ≠ lit "role.update" ∧ fitsColumn action ∧ fitsColumn resourceType ∧ resourceType ≠ []

instance (action resourceType : GoString) : Decidable (FixedTexts action resourceType) :=
  inferInstanceAs (Decidable (_ ∧ _))

/-- An event of fixed texts, on a resource that has an identifier. -/
theorem event_writable {action resourceType resourceID : GoString} {metadata : Metadata}
    (hfixed : FixedTexts action resourceType)
    (hresource : resourceID = [] ∨ (Uuid.parse resourceID).isSome)
    (hmetadata : ∀ field ∈ metadata, validString field.1 ∧ ∀ s ∈ field.2.strings, storableText s) :
    action ≠ lit "role.update" ∧ Writable ⟨action, resourceType, resourceID, metadata⟩ := by
  obtain ⟨hrole, haction, htype, hnamed⟩ := hfixed
  refine ⟨hrole, hresource, haction, htype, hnamed, ?_, fun field hfield => ?_⟩
  · refine List.all_eq_true.mpr fun field hfield => List.all_eq_true.mpr fun s hs => ?_
    exact (Bool.and_eq_true_iff.mp ((hmetadata field hfield).2 s hs)).2
  · obtain ⟨hkey, htexts⟩ := hmetadata field hfield
    exact ⟨hkey, fun s hs => (Bool.and_eq_true_iff.mp (htexts s hs)).1⟩

theorem CreateToken_created {s : CredentialStore} {caller : Caller} {userID : Uuid}
    {name : GoString} {draw : TokenDraw} {token : CreatedToken}
    (h : (TokenService.Create crypto s caller userID name draw).1 = .ok token) :
    token.name = name ∧ storableText name := by
  unfold TokenService.Create at h
  split_ifs at h
  unfold CredentialStore.CreateToken at h
  split_ifs at h with hname htaken hmissing
  obtain rfl := Except.ok.inj h
  simp only [Bool.or_eq_true, not_or, Bool.not_eq_true', Bool.not_eq_false] at hname
  exact ⟨rfl, hname.1.1.1⟩

theorem RevokeToken_ok {s : CredentialStore} {userID : Uuid} {id : GoString} {now : Instant}
    (h : (s.RevokeToken userID id now).1 = .ok ()) : (Uuid.parse id).isSome := by
  unfold CredentialStore.RevokeToken at h
  split at h
  · cases h
  · rename_i hid
    rw [hid]
    rfl

/-- What is recorded of a request that succeeded is taken by the insert, or names a role. -/
theorem event_cases {s : CredentialStore} (hroles : PresetRoles s.toAccountStore) (caller : Caller)
    (credentials : Credentials) (draw : TokenDraw) (now : Instant) (request : AdminRequest)
    {event : AuditEvent}
    (h : request.event (handleAdmin crypto s caller credentials draw now request).1 = some event) :
    event.action ≠ lit "role.update" ∧ Writable event ∨
      event.action = lit "role.update" ∧ Misnamed event := by
  cases request with
  | updateUser id req =>
    cases hanswer : (handleAdmin crypto s caller credentials draw now (.updateUser id req)).1 with
    | noContent =>
      rw [hanswer] at h
      obtain rfl := Option.some.inj h
      obtain ⟨hid, hrole⟩ := UserService_ok hroles (answer_noContent hanswer)
      have hfixed : FixedTexts (lit "user.update") (lit "user") := by decide
      refine Or.inl (event_writable hfixed (Or.inr hid) fun field hfield => ?_)
      rcases List.mem_append.mp hfield with hname | hflag
      · obtain ⟨name, hgiven, rfl⟩ := Option.map_eq_some_iff.mp (Option.mem_toList.mp hname)
        obtain ⟨-, -, htext⟩ := preset_text (hrole name hgiven)
        have hkey : validString (lit "role") := by decide
        exact ⟨hkey, by simpa [MetadataValue.strings] using htext⟩
      · obtain ⟨disabled, -, rfl⟩ := Option.map_eq_some_iff.mp (Option.mem_toList.mp hflag)
        have hkey : validString (lit "disabled") := by decide
        exact ⟨hkey, by simp [MetadataValue.strings]⟩
    | _ =>
      rw [hanswer] at h
      cases h
  | updateRole name req =>
    cases hanswer : (handleAdmin crypto s caller credentials draw now (.updateRole name req)).1 with
    | noContent =>
      rw [hanswer] at h
      obtain rfl := Option.some.inj h
      obtain ⟨hnamed, hnotID, -⟩ := preset_text (RoleService_ok hroles (answer_noContent hanswer))
      exact Or.inr ⟨rfl, hnamed, hnotID⟩
    | _ =>
      rw [hanswer] at h
      cases h
  | createToken name =>
    cases hanswer : (handleAdmin crypto s caller credentials draw now (.createToken name)).1 with
    | created token =>
      rw [hanswer] at h
      obtain rfl := Option.some.inj h
      have htext : storableText token.name := by
        simp only [handleAdmin] at hanswer
        split at hanswer
        · cases hanswer
        · split at hanswer
          · rename_i created store hcreated
            obtain rfl := AdminResponse.created.inj hanswer
            obtain ⟨hname, hstorable⟩ := CreateToken_created (congrArg Prod.fst hcreated)
            exact hname ▸ hstorable
          · cases hanswer
      have hfixed : FixedTexts (lit "token.create") (lit "token") := by decide
      refine Or.inl (event_writable hfixed (Or.inr ?_) fun field hfield => ?_)
      · rw [Uuid.parse_toText]
        rfl
      · obtain rfl := List.mem_singleton.mp hfield
        have hkey : validString (lit "name") := by decide
        exact ⟨hkey, by simpa [MetadataValue.strings] using htext⟩
    | _ =>
      rw [hanswer] at h
      cases h
  | revokeToken id =>
    cases hanswer : (handleAdmin crypto s caller credentials draw now (.revokeToken id)).1 with
    | noContent =>
      rw [hanswer] at h
      obtain rfl := Option.some.inj h
      have hid : (Uuid.parse id).isSome := by
        simp only [handleAdmin] at hanswer
        split at hanswer
        · cases hanswer
        · exact RevokeToken_ok (answer_noContent hanswer)
      have hfixed : FixedTexts (lit "token.revoke") (lit "token") := by decide
      exact Or.inl (event_writable hfixed (Or.inr hid) (by simp))
    | _ =>
      rw [hanswer] at h
      cases h
  | logout =>
    obtain rfl := Option.some.inj h
    have hfixed : FixedTexts (lit "session.logout") (lit "session") := by decide
    exact Or.inl (event_writable hfixed (Or.inl rfl) (by simp))

/-! ## What a run keeps -/

/-- The account of the caller is stored. -/
def Known (s : CredentialStore) (caller : Caller) : Prop :=
  ∀ userID ∈ caller.actorID, ∃ user ∈ s.users, user.id = userID

/-- What the insert makes of the event of a request. -/
def EventSound (event : AuditEvent) : Prop :=
  event.action ≠ lit "role.update" ∧ Writable event ∨
    event.action = lit "role.update" ∧ Misnamed event

/-- What is known of a request that is past the middleware. -/
def CallSound (s : CredentialStore) : AuditedCall → Prop
  | .request (.admitted caller _ _) => Known s caller
  | .request _ => True
  | .recording caller event _ => Known s caller ∧ EventSound event

/-- What every step keeps. -/
structure AuditSound (s : Pool AuditStore AuditedCall) : Prop where
  roles : PresetRoles s.shared.toAccountStore
  calls : ∀ i, CallSound s.shared.toCredentialStore (s.locals i)

theorem Known.kept {s t : CredentialStore} {caller : Caller} (h : Known s caller)
    (hkept : AccountsKept s.toAccountStore t.toAccountStore) : Known t caller := by
  intro userID huser
  obtain ⟨user, hmem, hid⟩ := h userID huser
  obtain ⟨later, hlater, hsame⟩ := hkept.users user hmem
  exact ⟨later, hlater, hsame.trans hid⟩

theorem CallSound.kept {s t : CredentialStore} {call : AuditedCall} (h : CallSound s call)
    (hkept : AccountsKept s.toAccountStore t.toAccountStore) : CallSound t call := by
  match call, h with
  | .request (.admitted ..), h => exact Known.kept h hkept
  | .request .idle, _ => trivial
  | .request (.arrived ..), _ => trivial
  | .request (.done _), _ => trivial
  | .recording .., h => exact ⟨h.1.kept hkept, h.2⟩

theorem account_mem {s : CredentialStore} {userID : Uuid} {user : UserRow} {role : RoleRow}
    (h : s.account userID = some (user, role)) : user ∈ s.users := by
  unfold CredentialStore.account at h
  split at h
  · cases h
  · rename_i row hfind
    split at h
    · cases h
    · obtain ⟨rfl, -⟩ := Prod.mk.inj (Option.some.inj h)
      exact List.mem_of_find?_eq_some hfind

theorem known_of_requireSession {s : CredentialStore} {credentials : Credentials} {now : Instant}
    {caller : Caller} (h : requireSession crypto s credentials now = some caller) :
    Known s caller := by
  obtain ⟨-, userID, user, role, hactor, haccount, -⟩ := requireSession_cases h
  intro id hid
  rw [hactor] at hid
  obtain rfl := Option.some.inj hid
  exact ⟨user, account_mem haccount, CredentialStore.account_id haccount⟩

/-- Whoever is authenticated has an account. -/
theorem known_of_Require {s : CredentialStore} {credentials : Credentials} {now : Instant}
    {caller : Caller} (h : Require u crypto s credentials now = some caller) : Known s caller := by
  unfold Require at h
  split at h
  · exact known_of_requireSession h
  · split at h
    · rename_i user htoken
      obtain rfl := Option.some.inj h
      unfold CredentialStore.AuthenticateToken at htoken
      split at htoken
      · cases htoken
      · split at htoken
        · cases htoken
        · rename_i row role haccount
          obtain rfl := Option.some.inj htoken
          intro id hid
          obtain rfl := Option.some.inj hid
          exact ⟨row, account_mem haccount, rfl⟩
    · exact known_of_requireSession h

theorem CredentialEffect.kept {s t : CredentialStore} {call : TokenCall} {action : TokenAction}
    (h : CredentialEffect crypto s call action t) :
    AccountsKept s.toAccountStore t.toAccountStore := by
  cases h with
  | accounts users roles hkept => exact hkept
  | signedIn => exact .refl _
  | minted => exact .refl _
  | revoked => exact .refl _
  | loggedOut => exact .refl _

/-- What is served with success was past the middleware, and is answered. -/
theorem servedEvent_cases {s t : CredentialStore} {call call' : TokenCall} {action : TokenAction}
    {caller : Caller} {event : AuditEvent}
    (h : servedEvent crypto s call action = some (caller, event))
    (hstep : (tokenCalls u crypto).step s call action = some (t, call')) :
    ∃ credentials request draw now response, call = .admitted caller credentials request ∧
      call' = .done response ∧
      request.event (handleAdmin crypto s caller credentials draw now request).1 = some event := by
  unfold servedEvent at h
  split at h
  · rename_i found credentials request draw now
    obtain ⟨other, hevent, heq⟩ := Option.map_eq_some_iff.mp h
    obtain ⟨rfl, rfl⟩ := Prod.mk.inj heq
    obtain ⟨-, rfl⟩ := Prod.mk.inj (Option.some.inj hstep)
    exact ⟨credentials, request, draw, now, _, rfl, rfl, hevent⟩
  · cases h

theorem callSound_of_not_past {t : CredentialStore} {call : TokenCall} (h : call.past = false) :
    CallSound t (.request call) := by
  cases call with
  | admitted => cases h
  | _ => trivial

theorem auditedCall_none (call : TokenCall) : auditedCall none call = .request call := by
  cases call <;> rfl

/-- Where a request stands after a step of its own. -/
theorem auditedCall_sound {s t : CredentialStore} {call call' : TokenCall} {action : TokenAction}
    (hroles : PresetRoles s.toAccountStore) (hcall : CallSound s (.request call))
    (hstep : (tokenCalls u crypto).step s call action = some (t, call')) :
    CallSound t (auditedCall (servedEvent crypto s call action) call') := by
  have hkept := (tokenCalls_tables hstep).kept
  cases hserved : servedEvent crypto s call action with
  | none =>
    rw [auditedCall_none]
    cases tokenCalls_effect hstep with
    | admitted caller credentials request now htokens hcaller hscope hcall' =>
      rw [hcall', htokens]
      exact known_of_Require hcaller
    | mint caller credentials name userID draw hbefore hactor hfree htokens =>
      refine callSound_of_not_past ?_
      cases call' with
      | admitted => cases hfree
      | _ => rfl
    | keep hsame htokens =>
      rcases hsame with rfl | hpast
      · exact hcall.kept hkept
      · exact callSound_of_not_past hpast
  | some x =>
    obtain ⟨caller, event⟩ := x
    obtain ⟨credentials, request, draw, now, response, rfl, rfl, hevent⟩ :=
      servedEvent_cases hserved hstep
    exact ⟨Known.kept hcall hkept, event_cases hroles caller credentials draw now request hevent⟩

/-- `Record` appends a row, or nothing. -/
theorem Record_cases (hash : GoString → Option (List UInt8)) (s : AuditStore) (caller : Caller)
    (ip : GoString) (event : AuditEvent) (id : Uuid) (now : Instant) :
    Record hash s caller ip event id now = s ∨ ∃ row : AuditRow, row.id = id ∧
      Record hash s caller ip event id now = { s with auditLogs := s.auditLogs ++ [row] } := by
  simp only [Record]
  split
  · exact Or.inl rfl
  · rename_i heq
    exact Or.inr (CreateAuditLog_ok heq)

theorem Record_credentials (s : AuditStore) (caller : Caller) (ip : GoString) (event : AuditEvent)
    (id : Uuid) (now : Instant) :
    (Record hash s caller ip event id now).toCredentialStore = s.toCredentialStore := by
  rcases Record_cases hash s caller ip event id now with heq | ⟨row, -, heq⟩
  · rw [heq]
  · rw [heq]

variable (u crypto hash)

/-- What a step of the machine is. -/
inductive AuditedEffect (s : AuditStore) (call : AuditedCall) (action : AuditedAction) :
    AuditStore → AuditedCall → Prop
  | request (before after : TokenCall) (step : TokenAction) (credentials : CredentialStore)
      (hcall : call = .request before) (haction : action = .request step)
      (hstep : (tokenCalls u crypto).step s.toCredentialStore before step =
        some (credentials, after)) :
      AuditedEffect s call action { s with toCredentialStore := credentials }
        (auditedCall (servedEvent crypto s.toCredentialStore before step) after)
  | record (caller : Caller) (event : AuditEvent) (response : AdminResponse) (ip : GoString)
      (id : Uuid) (now : Instant) (hcall : call = .recording caller event response)
      (haction : action = .record ip id now) (hnew : ∀ row ∈ s.auditLogs, row.id ≠ id) :
      AuditedEffect s call action (Record hash s caller ip event id now)
        (.request (.done response))

variable {u crypto hash}

theorem auditedCalls_effect {s t : AuditStore} {call call' : AuditedCall} {action : AuditedAction}
    (h : (auditedCalls u crypto hash).step s call action = some (t, call')) :
    AuditedEffect u crypto hash s call action t call' := by
  cases action with
  | request step =>
    cases call with
    | recording => cases h
    | request before =>
      obtain ⟨⟨credentials, after⟩, hstep, heq⟩ := Option.map_eq_some_iff.mp h
      obtain ⟨rfl, rfl⟩ := Prod.mk.inj heq
      exact .request before after step credentials rfl rfl hstep
  | record ip id now =>
    cases call with
    | request => cases h
    | recording caller event response =>
      obtain ⟨hnew, heq⟩ := Option.ite_none_left_eq_some.mp h
      obtain ⟨rfl, rfl⟩ := Prod.mk.inj (Option.some.inj heq)
      refine .record caller event response ip id now rfl rfl fun row hrow hid => hnew ?_
      exact List.any_eq_true.mpr ⟨row, hrow, beq_iff_eq.mpr hid⟩

theorem AuditSound.step {s t : Pool AuditStore AuditedCall} {a : ℕ × AuditedAction}
    (h : AuditSound s) (hstep : (auditedCalls u crypto hash).machine.step s a = some t) :
    AuditSound t := by
  obtain ⟨i, action⟩ := a
  obtain ⟨call', hcall, hi, hothers⟩ := Process.step_cases hstep
  have hcalls : AccountsKept s.shared.toAccountStore t.shared.toAccountStore →
      CallSound t.shared.toCredentialStore call' →
      ∀ j, CallSound t.shared.toCredentialStore (t.locals j) := by
    intro hkept hown j
    by_cases hj : j = i
    · rw [hj, hi]
      exact hown
    · rw [hothers j hj]
      exact (h.calls j).kept hkept
  have hroles : AccountsKept s.shared.toAccountStore t.shared.toAccountStore →
      PresetRoles t.shared.toAccountStore := by
    intro hkept role hrole
    obtain ⟨before, hbefore, hname⟩ := hkept.roles role hrole
    exact hname ▸ h.roles before hbefore
  have hown := h.calls i
  generalize ht : t.shared = store at hcall hcalls hroles
  cases auditedCalls_effect hcall with
  | request before after step credentials hbefore haction hstep =>
    rw [hbefore] at hown
    have hkept := (tokenCalls_tables hstep).kept
    exact ⟨ht ▸ hroles hkept, ht ▸ hcalls hkept (auditedCall_sound h.roles hown hstep)⟩
  | record caller event response ip id now hbefore haction hnew =>
    have hkept : AccountsKept s.shared.toAccountStore
        (Record hash s.shared caller ip event id now).toAccountStore := by
      rw [Record_credentials]
      exact .refl _
    exact ⟨ht ▸ hroles hkept, ht ▸ hcalls hkept trivial⟩

/-! ## Runs -/

variable (crypto)

/-- A step that serves a request with success, and what is to be recorded of it. -/
def servedAt (s : Pool AuditStore AuditedCall) (a : ℕ × AuditedAction) :
    Option (ℕ × Caller × AuditEvent) :=
  match a.2, s.locals a.1 with
  | .request action, .request call =>
    (servedEvent crypto s.shared.toCredentialStore call action).map (a.1, ·)
  | _, _ => none

/-- A step that inserts, and the event of its request. -/
def recordedAt (s : Pool AuditStore AuditedCall) (a : ℕ × AuditedAction) :
    Option (ℕ × Caller × AuditEvent) :=
  match a.2, s.locals a.1 with
  | .record .., .recording caller event _ => some (a.1, caller, event)
  | _, _ => none

/-- What a request is still to record. -/
def outstanding (s : Pool AuditStore AuditedCall) (i : ℕ) : List (Caller × AuditEvent) :=
  match s.locals i with
  | .recording caller event _ => [(caller, event)]
  | .request _ => []

/-- The entry of an event.  That of a role edit is lost. -/
def entryOf (x : Caller × AuditEvent) : Option TrailEntry :=
  if x.2.action = lit "role.update" then none else some (eventEntry x)

variable {crypto} {s t : Pool AuditStore AuditedCall} {a : ℕ × AuditedAction}
  {as : List (ℕ × AuditedAction)}

/-- What is served is recorded by its own request. -/
theorem handed_step (hstep : (auditedCalls u crypto hash).machine.step s a = some t) (i : ℕ) :
    outstanding s i ++ Machine.inPlace i (servedAt crypto s a).toList =
      Machine.inPlace i (recordedAt s a).toList ++ outstanding t i := by
  obtain ⟨j, action⟩ := a
  obtain ⟨call', hcall, hj, hothers⟩ := Process.step_cases hstep
  by_cases hi : i = j
  · subst hi
    generalize t.shared = store at hcall
    cases auditedCalls_effect hcall with
    | request before after step credentials hbefore haction hstep =>
      have hrecorded : recordedAt s (i, action) = none := by
        simp only [recordedAt, hbefore, haction]
      have hserved : servedAt crypto s (i, action) =
          (servedEvent crypto s.shared.toCredentialStore before step).map (i, ·) := by
        simp only [servedAt, hbefore, haction]
      rw [hrecorded, hserved, outstanding, outstanding, hbefore, hj]
      cases hevent : servedEvent crypto s.shared.toCredentialStore before step with
      | none => simp [auditedCall_none]
      | some x =>
        obtain ⟨caller, event⟩ := x
        obtain ⟨credentials, request, draw, now, response, -, rfl, -⟩ :=
          servedEvent_cases hevent hstep
        simp [auditedCall, Machine.inPlace]
    | record caller event response ip id now hbefore haction hnew =>
      simp [servedAt, recordedAt, outstanding, hbefore, haction, hj, Machine.inPlace]
  · have hserved : Machine.inPlace i (servedAt crypto s (j, action)).toList = [] := by
      unfold servedAt
      split
      · cases servedEvent crypto s.shared.toCredentialStore _ _ with
        | none => rfl
        | some x => simp [Machine.inPlace, Ne.symm hi]
      · rfl
    have hrecorded : Machine.inPlace i (recordedAt s (j, action)).toList = [] := by
      unfold recordedAt
      split
      · simp [Machine.inPlace, Ne.symm hi]
      · rfl
    have hsame : outstanding t i = outstanding s i := by
      rw [outstanding, outstanding, hothers i hi]
    rw [hserved, hrecorded, hsame, List.append_nil, List.nil_append]

/-- The entry of what is recorded is appended. -/
theorem entries_step (h : AuditSound s)
    (hstep : (auditedCalls u crypto hash).machine.step s a = some t) :
    ∃ rows, t.shared.auditLogs = s.shared.auditLogs ++ rows ∧
      rows.map rowEntry = ((recordedAt s a).bind fun x => entryOf x.2).toList := by
  obtain ⟨j, action⟩ := a
  obtain ⟨call', hcall, -, -⟩ := Process.step_cases hstep
  have hown := h.calls j
  generalize t.shared = store at hcall ⊢
  cases auditedCalls_effect hcall with
  | request before after step credentials hbefore haction hstep =>
    exact ⟨[], by simp, by simp [recordedAt, hbefore]⟩
  | record caller event response ip id now hbefore haction hnew =>
    rw [hbefore] at hown
    obtain ⟨hknown, hevent⟩ := hown
    have hrecorded : recordedAt s (j, action) = some (j, caller, event) := by
      simp only [recordedAt, hbefore, haction]
    rw [hrecorded]
    rcases hevent with ⟨hrole, hwritable⟩ | ⟨hrole, hmisnamed⟩
    · have hactor : ∀ userID ∈ caller.actorID, (s.shared.userRow userID).isSome := by
        intro userID huser
        obtain ⟨user, hmem, hid⟩ := hknown userID huser
        exact List.find?_isSome.mpr ⟨user, hmem, beq_iff_eq.mpr hid⟩
      obtain ⟨row, -, hentry, heq⟩ := Record_writable hwritable hactor ip id now
      rw [heq]
      exact ⟨[row], rfl, by simp [entryOf, hrole, hentry]⟩
    · rw [Record_misnamed hmisnamed]
      exact ⟨[], by simp, by simp [entryOf, hrole]⟩

/-- A step appends a row with an identifier of its own, or none. -/
theorem trail_step (hstep : (auditedCalls u crypto hash).machine.step s a = some t) :
    t.shared.auditLogs = s.shared.auditLogs ∨
      ∃ row, (∀ other ∈ s.shared.auditLogs, other.id ≠ row.id) ∧
        t.shared.auditLogs = s.shared.auditLogs ++ [row] := by
  obtain ⟨j, action⟩ := a
  obtain ⟨call', hcall, -, -⟩ := Process.step_cases hstep
  generalize t.shared = store at hcall ⊢
  cases auditedCalls_effect hcall with
  | request before after step credentials hbefore haction hstep => exact Or.inl rfl
  | record caller event response ip id now hbefore haction hnew =>
    rcases Record_cases hash s.shared caller ip event id now with heq | ⟨row, hid, heq⟩
    · rw [heq]
      exact Or.inl rfl
    · rw [heq]
      exact Or.inr ⟨row, hid ▸ hnew, rfl⟩

/-- The trail is appended to. -/
theorem trail_grows (hrun : (auditedCalls u crypto hash).machine.run s as = some t) :
    s.shared.auditLogs <+: t.shared.auditLogs := by
  refine (auditedCalls u crypto hash).machine.run_invariant
    (I := fun v => s.shared.auditLogs <+: v.shared.auditLogs) ?_ List.prefix_rfl hrun
  intro v b w hprefix hstep
  rcases trail_step hstep with hsame | ⟨row, -, hrows⟩
  · rwa [hsame]
  · exact hprefix.trans (hrows ▸ List.prefix_append _ _)

/-- Its identifiers stay apart. -/
theorem trail_ids (hids : (s.shared.auditLogs.map AuditRow.id).Nodup)
    (hrun : (auditedCalls u crypto hash).machine.run s as = some t) :
    (t.shared.auditLogs.map AuditRow.id).Nodup := by
  refine (auditedCalls u crypto hash).machine.run_invariant
    (I := fun v => (v.shared.auditLogs.map AuditRow.id).Nodup) ?_ hids hrun
  intro v b w hnodup hstep
  rcases trail_step hstep with hsame | ⟨row, hnew, hrows⟩
  · rwa [hsame]
  · rw [hrows, List.map_append]
    refine hnodup.append (List.nodup_singleton _) ?_
    simpa [List.Disjoint] using hnew

/-- After any run from a state in which no request is on its way, what the trail has gained are
entries of requests that succeeded; and when everything is recorded, these are the entries of all
of them, once each, but for the edits of roles. -/
theorem audit_trail (hroles : PresetRoles s.shared.toAccountStore)
    (hidle : ∀ i, s.locals i = .request .idle)
    (hrun : (auditedCalls u crypto hash).machine.run s as = some t) :
    ∃ added, t.shared.auditLogs = s.shared.auditLogs ++ added ∧
      (added.map rowEntry).Subperm
        (((auditedCalls u crypto hash).machine.observed (servedAt crypto) s as).filterMap
          fun x => entryOf x.2) ∧
      ((∀ i, outstanding t i = []) → (added.map rowEntry).Perm
        (((auditedCalls u crypto hash).machine.observed (servedAt crypto) s as).filterMap
          fun x => entryOf x.2)) := by
  have hsound : AuditSound s := ⟨hroles, fun i => by rw [hidle i]; trivial⟩
  have hfirst : ∀ i, outstanding s i = [] := fun i => by rw [outstanding, hidle i]
  have hstep : ∀ (v : Pool AuditStore AuditedCall) b w, AuditSound v →
      (auditedCalls u crypto hash).machine.step v b = some w → AuditSound w ∧ ∀ i,
        outstanding v i ++ Machine.inPlace i (servedAt crypto v b).toList =
          Machine.inPlace i (recordedAt v b).toList ++ outstanding w i :=
    fun v b w hv hb => ⟨hv.step hb, handed_step hb⟩
  obtain ⟨added, hadded⟩ := trail_grows hrun
  have hlog := Machine.log_of_run (m := (auditedCalls u crypto hash).machine) (I := AuditSound)
    (fun v => v.shared.auditLogs.map rowEntry)
    (fun v b => (recordedAt v b).bind fun x => entryOf x.2) ?_ hsound hrun
  · have hentries : added.map rowEntry =
        ((auditedCalls u crypto hash).machine.observed recordedAt s as).filterMap
          fun x => entryOf x.2 := by
      rw [← Machine.observed_bind]
      refine (List.append_right_inj (s.shared.auditLogs.map rowEntry)).mp ?_
      rw [← List.map_append, hadded, hlog]
    refine ⟨added, hadded.symm, ?_, fun hdone => ?_⟩
    · rw [hentries]
      obtain ⟨part, hperm, hsub⟩ := Machine.handed_over_subperm hstep hsound hrun hfirst
      exact ⟨_, hperm.filterMap _, hsub.filterMap _⟩
    · rw [hentries]
      exact (Machine.handed_over_perm hstep hsound hrun hfirst hdone).filterMap _
  · intro v b w hv hb
    obtain ⟨rows, hrows, hentry⟩ := entries_step hv hb
    exact ⟨hv.step hb, by rw [hrows, List.map_append, hentry]⟩

/-! ## Pages -/

/-- Whoever reads the trail page after page, with any run of requests between two pages, up to the
total that the last page reports, sees every entry that was there at the beginning. -/
theorem audit_pages {v : ℕ → Pool AuditStore AuditedCall} {steps : ℕ → List (ℕ × AuditedAction)}
    (hids : ((v 0).shared.auditLogs.map AuditRow.id).Nodup)
    (hruns : ∀ k, (auditedCalls u crypto hash).machine.run (v k) (steps k) = some (v (k + 1)))
    {action : GoString} {limit n : ℕ} {pages : ℕ → List AuditEntry × ℕ}
    (hpages : ∀ k, (v k).shared.ListAuditLogs action limit (k * limit) = .ok (pages k))
    (hend : (pages n).2 ≤ (n + 1) * limit) {row : AuditRow}
    (hrow : row ∈ (v 0).shared.trail action) :
    ∃ k ≤ n, (v k).shared.toEntry row ∈ (pages k).1 := by
  have hnodup : ∀ k, ((v k).shared.auditLogs.map AuditRow.id).Nodup := by
    intro k
    induction k with
    | zero => exact hids
    | succ k ih => exact trail_ids ih (hruns k)
  have hanswer : ∀ k, pages k = ((page newestFirst ((v k).shared.trail action) limit
      (k * limit)).map (v k).shared.toEntry, ((v k).shared.trail action).length) := by
    intro k
    have hpage := hpages k
    unfold ListAuditLogs at hpage
    split_ifs at hpage
    exact (Except.ok.inj hpage).symm
  have hgrow : ∀ k, ((v k).shared.trail action).Subperm ((v (k + 1)).shared.trail action) :=
    fun k => ((trail_grows (hruns k)).sublist.filter _).subperm
  have hlast : ((v n).shared.trail action).length ≤ (n + 1) * limit := by
    rwa [hanswer] at hend
  obtain ⟨k, hk, hmem⟩ := pages_cover (fun k => sorts_trail (hnodup k) action) hgrow hrow hlast
  refine ⟨k, hk, ?_⟩
  rw [hanswer]
  exact List.mem_map_of_mem hmem

end

/-- A request from its arrival to its entry. -/
def recordedSteps (i : ℕ) (credentials : Credentials) (request : AdminRequest) :
    List (ℕ × AuditedAction) :=
  (requestSteps i credentials request).map (fun a => (a.1, .request a.2)) ++
    [(i, .record (lit "127.0.0.1") default 0)]

/-- The administrator edits a role, and the plain account mints a token. -/
def narrowThenMint : List (ℕ × AuditedAction) :=
  recordedSteps 0 (cookiesOf "root") (.updateRole (lit "user") ⟨[lit "tokens:manage"], false⟩) ++
    recordedSteps 1 (cookiesOf "bob") (.createToken (lit "ci"))

/-- The entry of the token. -/
def mintedEntry : TrailEntry where
  actor := some (Uuid.filled (Fin.last 15))
  action := lit "token.create"
  resourceType := lit "token"
  resourceID := some default
  metadata := [(lit "name", .text (lit "ci"))]

/-- Of the two requests only the second is in the trail. -/
theorem audit_trail_roleEdit :
    ∃ t, (auditedCalls .ascii plainCrypto some).machine.run
        ⟨{ twoSessions with }, fun _ => .request .idle⟩ narrowThenMint = some t ∧
      (t.shared.auditLogs.map rowEntry).Perm [mintedEntry] := by
  have hruns : (((auditedCalls .ascii plainCrypto some).machine.run
      ⟨{ twoSessions with }, fun _ => .request .idle⟩ narrowThenMint).map fun t =>
        (outstanding t 0).isEmpty && (outstanding t 1).isEmpty) = some true := by
    decide
  obtain ⟨t, ht, hdone⟩ := Option.map_eq_some_iff.mp hruns
  rw [Bool.and_eq_true, List.isEmpty_iff, List.isEmpty_iff] at hdone
  have hothers := Process.locals_of_run (fun i => 2 ≤ i) (by decide) ht
  have hserved : ((auditedCalls .ascii plainCrypto some).machine.observed (servedAt plainCrypto)
      ⟨{ twoSessions with }, fun _ => .request .idle⟩ narrowThenMint).filterMap
        (fun x => entryOf x.2) = [mintedEntry] := by
    decide
  have hroles : PresetRoles twoSessions.toAccountStore := by
    unfold PresetRoles
    decide
  obtain ⟨added, hadded, -, hall⟩ := audit_trail hroles (fun _ => rfl) ht
  refine ⟨t, ht, ?_⟩
  rw [hadded, ← hserved]
  refine hall fun i => ?_
  match i with
  | 0 => exact hdone.1
  | 1 => exact hdone.2
  | i + 2 => rw [outstanding, hothers (i + 2) (by omega)]

/-- An entry of before, and the tables with it. -/
def earlierRow : AuditRow where
  id := Uuid.filled (Fin.last 15)
  userID := none
  action := lit "session.login"
  resourceType := lit "session"
  resourceID := none
  metadata := none
  ipHash := none
  createdAt := -1

def earlierPool : Pool AuditStore AuditedCall where
  shared := { twoSessions with auditLogs := [earlierRow] }
  locals _ := .request .idle

/-- A token is minted between two pages of one entry each, and the older entry is seen. -/
theorem audit_pages_minted :
    ∃ v : ℕ → Pool AuditStore AuditedCall, v 0 = earlierPool ∧
      (v 1).shared.auditLogs.length = 2 ∧
      ∃ k ≤ 1, (v k).shared.toEntry earlierRow ∈
        (page newestFirst ((v k).shared.trail []) 1 (k * 1)).map (v k).shared.toEntry := by
  have hruns : (((auditedCalls .ascii plainCrypto some).machine.run earlierPool
      narrowThenMint).map fun t => t.shared.auditLogs.length) = some 2 := by
    decide
  obtain ⟨t, ht, hlength⟩ := Option.map_eq_some_iff.mp hruns
  let v : ℕ → Pool AuditStore AuditedCall := fun k => [earlierPool].getD k t
  let steps : ℕ → List (ℕ × AuditedAction) := fun k => [narrowThenMint].getD k []
  have hsteps : ∀ k, (auditedCalls .ascii plainCrypto some).machine.run (v k) (steps k) =
      some (v (k + 1)) := by
    intro k
    cases k with
    | zero => exact ht
    | succ k => rfl
  have hids : (earlierPool.shared.auditLogs.map AuditRow.id).Nodup := by decide
  have hpages : ∀ k, (v k).shared.ListAuditLogs [] 1 (k * 1) =
      .ok ((page newestFirst ((v k).shared.trail []) 1 (k * 1)).map (v k).shared.toEntry,
        ((v k).shared.trail []).length) := fun k => rfl
  have hlast : ((v 1).shared.trail []).length ≤ (1 + 1) * 1 :=
    (List.length_filter_le ..).trans hlength.le
  have hrow : earlierRow ∈ (v 0).shared.trail [] := List.mem_singleton_self earlierRow
  exact ⟨v, rfl, hlength, audit_pages hids hsteps hpages hlast hrow⟩

end Purels.Properties
