import Mathlib.Data.List.Lex
import Purels.Go.Json
import Purels.Lib.Pages
import Purels.Store.Tokens

/-!
# The audit trail

The table `audit_logs` beside the credentials, and the statements on it.

* `AuditRow`, `AuditStore`: the table.  Nothing edits or deletes a row.
* `CreateAuditLog`: the insert, with what its columns refuse.
* `ListAuditLogs`: a page of the trail, newest first.
-/

namespace Purels.Store

open Go Lib LinkStore

/-! ## Entries -/

/-- What the metadata of an entry holds under a key. -/
inductive MetadataValue where
  | text (s : GoString)
  | texts (items : List GoString)
  | flag (b : Bool)
  deriving DecidableEq

/-- The texts of a value. -/
def MetadataValue.strings : MetadataValue → List GoString
  | .text s => [s]
  | .texts items => items
  | .flag _ => []

/-- The value after `json.Marshal`. -/
def MetadataValue.marshal : MetadataValue → MetadataValue
  | .text s => .text (jsonText s)
  | .texts items => .texts (items.map jsonText)
  | .flag b => .flag b

abbrev Metadata := List (GoString × MetadataValue)

/-- `jsonb` takes no null character. -/
def storableJson (metadata : Metadata) : Bool :=
  metadata.all fun field => field.2.strings.all fun s => !s.contains 0

/-- A row of `audit_logs`. -/
structure AuditRow where
  id : Uuid
  userID : Option Uuid
  action : GoString
  resourceType : Option GoString
  resourceID : Option Uuid
  metadata : Option Metadata
  ipHash : Option (List UInt8)
  createdAt : Instant
  deriving DecidableEq

structure AuditStore extends CredentialStore where
  auditLogs : List AuditRow := []
  deriving DecidableEq

namespace AuditStore

/-! ## The insert -/

/-- The cast of `resource_id`; an entry that names no resource has none. -/
def resourceParam : Option GoString → Option (Option Uuid)
  | none => some none
  | some text => (Uuid.parse text).map some

/-- A `varchar(64)` takes the text. -/
def fitsColumn (s : GoString) : Bool := storableText s && (runes s).length ≤ 64

/-- `CreateAuditLog`, with the identifier that the table draws. -/
def CreateAuditLog (s : AuditStore) (userID : Option Uuid) (action resourceType : GoString)
    (resourceID : Option GoString) (metadata : Metadata) (ipHash : Option (List UInt8)) (id : Uuid)
    (now : Instant) : Except ServiceError AuditStore :=
  match resourceParam resourceID with
  | none => .error .database
  | some resource =>
    if !fitsColumn action || !fitsColumn resourceType || !storableJson metadata then
      .error .database
    else if userID.any fun userID => (s.userRow userID).isNone then .error .database
    else .ok { s with
      auditLogs := s.auditLogs ++ [{
        id := id
        userID := userID
        action := action
        resourceType := if resourceType = [] then none else some resourceType
        resourceID := resource
        metadata := if metadata = [] then none else
          some (metadata.map fun field => (jsonText field.1, field.2.marshal))
        ipHash := ipHash
        createdAt := now }] }

/-- The insert appends a row of this identifier. -/
theorem CreateAuditLog_ok {s t : AuditStore} {userID : Option Uuid} {action resourceType : GoString}
    {resourceID : Option GoString} {metadata : Metadata} {ipHash : Option (List UInt8)} {id : Uuid}
    {now : Instant}
    (h : s.CreateAuditLog userID action resourceType resourceID metadata ipHash id now = .ok t) :
    ∃ row : AuditRow, row.id = id ∧ t = { s with auditLogs := s.auditLogs ++ [row] } := by
  unfold CreateAuditLog at h
  split at h
  · cases h
  · split at h
    · cases h
    · split at h
      · cases h
      · obtain rfl := Except.ok.inj h
        exact ⟨_, rfl, rfl⟩

/-! ## The list -/

/-- `domain.AuditEntry`. -/
structure AuditEntry where
  id : Uuid
  userID : Option Uuid
  username : GoString
  action : GoString
  resourceType : GoString
  resourceID : Option Uuid
  metadata : Option Metadata
  createdAt : Instant
  deriving DecidableEq

/-- `ORDER BY a.created_at DESC, a.id DESC`. -/
def newestFirst (a b : AuditRow) : Bool :=
  if a.createdAt = b.createdAt then decide (b.id.digits ≤ a.id.digits)
  else decide (b.createdAt < a.createdAt)

/-- The rows that the list is narrowed to. -/
def trail (s : AuditStore) (action : GoString) : List AuditRow :=
  s.auditLogs.filter fun row => action == [] || row.action == action

/-- An entry with the name of its actor, if there is one. -/
def toEntry (s : AuditStore) (row : AuditRow) : AuditEntry where
  id := row.id
  userID := row.userID
  username := ((row.userID.bind s.userRow).map UserRow.username).getD []
  action := row.action
  resourceType := row.resourceType.getD []
  resourceID := row.resourceID
  metadata := row.metadata
  createdAt := row.createdAt

/-- `ListAuditLogs`: a page of the trail, and how many entries it has. -/
def ListAuditLogs (s : AuditStore) (action : GoString) (limit offset : ℕ) :
    Except ServiceError (List AuditEntry × ℕ) :=
  if !storableText action then .error .database
  else
    .ok ((page newestFirst (s.trail action) limit offset).map s.toEntry, (s.trail action).length)

theorem newestFirst_iff (a b : AuditRow) : newestFirst a b ↔ b.createdAt < a.createdAt ∨
    a.createdAt = b.createdAt ∧ b.id.digits ≤ a.id.digits := by
  unfold newestFirst
  split_ifs with hsame
  · simp [hsame]
  · simp [hsame]

/-- The trail is sorted by the time of its entries and their identifiers. -/
theorem sorts_trail {s : AuditStore} (hids : (s.auditLogs.map AuditRow.id).Nodup)
    (action : GoString) : Sorts newestFirst (s.trail action) := by
  refine ⟨fun a b c hab hbc => ?_, fun a b => ?_, fun a ha b hb hab hba => ?_, ?_⟩
  · rw [newestFirst_iff] at hab hbc ⊢
    rcases hab with hab | ⟨hab, hid⟩ <;> rcases hbc with hbc | ⟨hbc, hid'⟩
    · exact Or.inl (hbc.trans hab)
    · exact Or.inl (hbc ▸ hab)
    · exact Or.inl (hab ▸ hbc)
    · exact Or.inr ⟨hab.trans hbc, hid'.trans hid⟩
  · rw [Bool.or_eq_true, newestFirst_iff, newestFirst_iff]
    rcases lt_trichotomy a.createdAt b.createdAt with hlt | heq | hgt
    · exact Or.inr (Or.inl hlt)
    · exact (le_total b.id.digits a.id.digits).imp (fun h => Or.inr ⟨heq, h⟩)
        fun h => Or.inr ⟨heq.symm, h⟩
    · exact Or.inl (Or.inl hgt)
  · rw [newestFirst_iff] at hab hba
    have hdigits : a.id.digits = b.id.digits := by
      rcases hab with hab | ⟨hab, hid⟩ <;> rcases hba with hba | ⟨hba, hid'⟩
      · exact absurd hba hab.asymm
      · exact absurd hab hba.symm.not_gt
      · exact absurd hba hab.symm.not_gt
      · exact le_antisymm hid' hid
    have hid : a.id = b.id := by
      cases ha' : a.id
      cases hb' : b.id
      simp_all
    exact List.inj_on_of_nodup_map hids (List.mem_of_mem_filter ha) (List.mem_of_mem_filter hb) hid
  · exact (List.Nodup.of_map _ hids).filter _

end AuditStore

end Purels.Store
