import Purels.Domain.RuntimePatch
import Purels.Store.Links

/-!
# The row of the runtime settings

The singleton table `runtime_settings`; there may be no row yet.  `totp_enabled` has
been adopted, so that it is never NULL.

* `GetRuntimeSettings`, `updateRuntimeSettings`: the statements.
* `updateRuntimeSettings_ok`: what a successful update has done.
-/

namespace Purels.Store

open Go

/-- The text of the settings can be stored. -/
def storableSettings (input : RuntimeSettingsInput) : Bool :=
  storableText input.aliasMode && storableText input.fallbackURL &&
    input.destinationDenylist.all storableText && input.shortDomains.all storableText

/-- `GetRuntimeSettings`. -/
def GetRuntimeSettings (row : Option RuntimeSettings) : Except ServiceError RuntimeSettings :=
  match row with
  | none => .error .notFound
  | some settings => .ok settings

/-- The row with other settings and the next revision. -/
def nextSettings (input : RuntimeSettingsInput) (now : Instant) (row : RuntimeSettings) :
    RuntimeSettings where
  toRuntimeSettingsInput := input
  revision := row.revision + 1
  updatedAt := now

/-- `updateRuntimeSettings`: the row it returns, and the table after it.  Revision 0 asks
for no revision. -/
def updateRuntimeSettings (input : RuntimeSettingsInput) (revision : Int) (now : Instant)
    (row : Option RuntimeSettings) : Except ServiceError RuntimeSettings × Option RuntimeSettings :=
  match row.filter fun settings => revision == 0 || settings.revision == revision with
  | none => (.error (if 0 < revision then .conflict else .notFound), row)
  | some settings =>
    if !storableSettings input || decide (2 ^ 63 ≤ settings.revision + 1) then
      (.error .database, row)
    else (.ok (nextSettings input now settings), some (nextSettings input now settings))

/-- `UpdateRuntimeSettings`. -/
def UpdateRuntimeSettings (input : RuntimeSettingsInput) (now : Instant)
    (row : Option RuntimeSettings) : Except ServiceError RuntimeSettings × Option RuntimeSettings :=
  updateRuntimeSettings input 0 now row

/-- `CompareAndSwapRuntimeSettings`. -/
def CompareAndSwapRuntimeSettings (input : RuntimeSettingsInput) (revision : Int) (now : Instant)
    (row : Option RuntimeSettings) : Except ServiceError RuntimeSettings × Option RuntimeSettings :=
  if revision ≤ 0 then (.error .conflict, row)
  else updateRuntimeSettings input revision now row

/-! ## What an update does -/

section

variable {input : RuntimeSettingsInput} {revision : Int} {now : Instant}
  {row row' : Option RuntimeSettings}

/-- An update that fails leaves the row. -/
theorem updateRuntimeSettings_error {e : ServiceError}
    (h : updateRuntimeSettings input revision now row = (.error e, row')) : row' = row := by
  unfold updateRuntimeSettings at h
  split at h
  · exact (Prod.mk.inj h).2.symm
  · split_ifs at h
    · exact (Prod.mk.inj h).2.symm
    · simp at h

/-- One that succeeds makes the next revision of the row it was asked for. -/
theorem updateRuntimeSettings_ok {settings : RuntimeSettings}
    (h : updateRuntimeSettings input revision now row = (.ok settings, row')) :
    ∃ before, row = some before ∧ (revision = 0 ∨ before.revision = revision) ∧
      settings = nextSettings input now before ∧ row' = some settings := by
  unfold updateRuntimeSettings at h
  split at h
  · simp at h
  · rename_i before hfilter
    obtain ⟨hrow, hrevision⟩ := Option.filter_eq_some_iff.mp hfilter
    split_ifs at h
    · simp at h
    · obtain ⟨hok, rfl⟩ := Prod.mk.inj h
      refine ⟨before, hrow, ?_, (Except.ok.inj hok).symm, congrArg some (Except.ok.inj hok)⟩
      simpa using hrevision

end

end Purels.Store
