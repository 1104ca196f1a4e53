import Purels.Domain.RuntimeSettings
import Purels.Go.Json

/-!
# Patches of the runtime settings

`RuntimeSettingsPatch` and its `Apply`.

* `SettingsField`: the fields of `RuntimeSettingsInput`, with their JSON names.
* `RuntimeSettingsPatch`: the changes are a map, kept in the order of its keys, in
  which `json.Marshal` writes it.
* `Apply_read`: a field that no key names keeps its value.
-/

namespace Purels

open Go

/-! ## Fields -/

inductive SettingsField where
  | aliasMode | uniqueURLs | registrationEnabled | countBots | totpEnabled | forwardQuery
  | fallbackURL | autoPruneExpired | pruneGraceSeconds | maxLinksPerUser | destinationDenylist
  | shortDomains | healthCheckEnabled | healthCheckIntervalSeconds | rateLimitEnabled
  | rateLimitLogin | rateLimitAPI | rateLimitRedirect | rateLimitRegister | rateLimit2FA
  | rateLimitOIDC
  deriving DecidableEq

namespace SettingsField

/-- The JSON name. -/
def tag : SettingsField → GoString
  | .aliasMode => lit "alias_mode"
  | .uniqueURLs => lit "unique_urls"
  | .registrationEnabled => lit "registration_enabled"
  | .countBots => lit "count_bots"
  | .totpEnabled => lit "totp_enabled"
  | .forwardQuery => lit "forward_query"
  | .fallbackURL => lit "fallback_url"
  | .autoPruneExpired => lit "auto_prune_expired"
  | .pruneGraceSeconds => lit "prune_grace_seconds"
  | .maxLinksPerUser => lit "max_links_per_user"
  | .destinationDenylist => lit "destination_denylist"
  | .shortDomains => lit "short_domains"
  | .healthCheckEnabled => lit "health_check_enabled"
  | .healthCheckIntervalSeconds => lit "health_check_interval_seconds"
  | .rateLimitEnabled => lit "rate_limit_enabled"
  | .rateLimitLogin => lit "rate_limit_login"
  | .rateLimitAPI => lit "rate_limit_api"
  | .rateLimitRedirect => lit "rate_limit_redirect"
  | .rateLimitRegister => lit "rate_limit_register"
  | .rateLimit2FA => lit "rate_limit_2fa"
  | .rateLimitOIDC => lit "rate_limit_oidc"

/-- In the order of the structure. -/
def all : List SettingsField :=
  [.aliasMode, .uniqueURLs, .registrationEnabled, .countBots, .totpEnabled, .forwardQuery,
    .fallbackURL, .autoPruneExpired, .pruneGraceSeconds, .maxLinksPerUser, .destinationDenylist,
    .shortDomains, .healthCheckEnabled, .healthCheckIntervalSeconds, .rateLimitEnabled,
    .rateLimitLogin, .rateLimitAPI, .rateLimitRedirect, .rateLimitRegister, .rateLimit2FA,
    .rateLimitOIDC]

end SettingsField

/-- The value of a field. -/
inductive SettingsValue where
  | bool (b : Bool)
  | int (n : Int)
  | text (s : GoString)
  | texts (l : List GoString)
  deriving DecidableEq

namespace RuntimeSettingsInput

def read (input : RuntimeSettingsInput) : SettingsField → SettingsValue
  | .aliasMode => .text input.aliasMode
  | .uniqueURLs => .bool input.uniqueURLs
  | .registrationEnabled => .bool input.registrationEnabled
  | .countBots => .bool input.countBots
  | .totpEnabled => .bool input.totpEnabled
  | .forwardQuery => .bool input.forwardQuery
  | .fallbackURL => .text input.fallbackURL
  | .autoPruneExpired => .bool input.autoPruneExpired
  | .pruneGraceSeconds => .int input.pruneGraceSeconds
  | .maxLinksPerUser => .int input.maxLinksPerUser
  | .destinationDenylist => .texts input.destinationDenylist
  | .shortDomains => .texts input.shortDomains
  | .healthCheckEnabled => .bool input.healthCheckEnabled
  | .healthCheckIntervalSeconds => .int input.healthCheckIntervalSeconds
  | .rateLimitEnabled => .bool input.rateLimitEnabled
  | .rateLimitLogin => .int input.rateLimitLogin
  | .rateLimitAPI => .int input.rateLimitAPI
  | .rateLimitRedirect => .int input.rateLimitRedirect
  | .rateLimitRegister => .int input.rateLimitRegister
  | .rateLimit2FA => .int input.rateLimit2FA
  | .rateLimitOIDC => .int input.rateLimitOIDC

end RuntimeSettingsInput

/-! ## Patches -/

/-- `map[string]json.RawMessage`. -/
structure Changes where
  entries : List (GoString × Json)
  sorted : (entries.map Prod.fst).Pairwise (· < ·)

/-- `domain.RuntimeSettingsPatch`. -/
structure RuntimeSettingsPatch where
  revision : Int
  changes : Changes

/-- The reasons of `ErrInvalidRuntimePatch`. -/
inductive PatchError where
  | required
  | nullField (key : GoString)
  | unknownField (key : GoString)
  | badValue (field : SettingsField)
  deriving DecidableEq

/-- The structure while it is decoded into, with the memory behind its lists. -/
structure Decoding where
  input : RuntimeSettingsInput
  denylistSpare : List GoString := []
  domainsSpare : List GoString := []

namespace Decoding

/-- A value decoded into a field. -/
def set (d : Decoding) (value : Json) : SettingsField → Option Decoding
  | .aliasMode => value.toText.map fun x => { d with input := { d.input with aliasMode := x } }
  | .uniqueURLs => value.toBool.map fun x => { d with input := { d.input with uniqueURLs := x } }
  | .registrationEnabled =>
    value.toBool.map fun x => { d with input := { d.input with registrationEnabled := x } }
  | .countBots => value.toBool.map fun x => { d with input := { d.input with countBots := x } }
  | .totpEnabled => value.toBool.map fun x => { d with input := { d.input with totpEnabled := x } }
  | .forwardQuery =>
    value.toBool.map fun x => { d with input := { d.input with forwardQuery := x } }
  | .fallbackURL => value.toText.map fun x => { d with input := { d.input with fallbackURL := x } }
  | .autoPruneExpired =>
    value.toBool.map fun x => { d with input := { d.input with autoPruneExpired := x } }
  | .pruneGraceSeconds =>
    value.toInt.map fun x => { d with input := { d.input with pruneGraceSeconds := x } }
  | .maxLinksPerUser =>
    value.toInt.map fun x => { d with input := { d.input with maxLinksPerUser := x } }
  | .destinationDenylist =>
    (value.toStrings ⟨d.input.destinationDenylist, d.denylistSpare⟩).map fun x =>
      { d with input := { d.input with destinationDenylist := x.values }, denylistSpare := x.spare }
  | .shortDomains =>
    (value.toStrings ⟨d.input.shortDomains, d.domainsSpare⟩).map fun x =>
      { d with input := { d.input with shortDomains := x.values }, domainsSpare := x.spare }
  | .healthCheckEnabled =>
    value.toBool.map fun x => { d with input := { d.input with healthCheckEnabled := x } }
  | .healthCheckIntervalSeconds =>
    value.toInt.map fun x => { d with input := { d.input with healthCheckIntervalSeconds := x } }
  | .rateLimitEnabled =>
    value.toBool.map fun x => { d with input := { d.input with rateLimitEnabled := x } }
  | .rateLimitLogin =>
    value.toInt.map fun x => { d with input := { d.input with rateLimitLogin := x } }
  | .rateLimitAPI => value.toInt.map fun x => { d with input := { d.input with rateLimitAPI := x } }
  | .rateLimitRedirect =>
    value.toInt.map fun x => { d with input := { d.input with rateLimitRedirect := x } }
  | .rateLimitRegister =>
    value.toInt.map fun x => { d with input := { d.input with rateLimitRegister := x } }
  | .rateLimit2FA => value.toInt.map fun x => { d with input := { d.input with rateLimit2FA := x } }
  | .rateLimitOIDC =>
    value.toInt.map fun x => { d with input := { d.input with rateLimitOIDC := x } }

end Decoding

section

variable (u : Unicode)

/-- The field a key of the changes names. -/
def settingsField (key : GoString) : Option SettingsField :=
  fieldOf u SettingsField.tag SettingsField.all key

/-- `Decode` with `DisallowUnknownFields`.  It goes on after an error and returns the
first one. -/
def decodeChanges : List (GoString × Json) → Decoding → Except PatchError Decoding
  | [], d => .ok d
  | (key, value) :: entries, d =>
    match settingsField u key with
    | none => .error (.unknownField key)
    | some field =>
      match d.set value field with
      | none => .error (.badValue field)
      | some d => decodeChanges entries d

/-- `RuntimeSettingsPatch.Apply`.  The source ranges over the map in an arbitrary order,
so which of several null fields it names is arbitrary. -/
def RuntimeSettingsPatch.Apply (p : RuntimeSettingsPatch) (input : RuntimeSettingsInput) :
    Except PatchError RuntimeSettingsInput :=
  if p.revision ≤ 0 || p.changes.entries.isEmpty then .error .required
  else
    match p.changes.entries.find? fun entry => entry.2.isNull with
    | some entry => .error (.nullField entry.1)
    | none =>
      match decodeChanges u p.changes.entries ⟨input, [], []⟩ with
      | .error e => .error e
      | .ok d => .ok d.input

/-- A key of the patch names the field. -/
def RuntimeSettingsPatch.Supplies (p : RuntimeSettingsPatch) (field : SettingsField) : Prop :=
  ∃ entry ∈ p.changes.entries, settingsField u entry.1 = some field

/-! ## The other fields -/

/-- Decoding into one field leaves the others. -/
theorem Decoding.set_read {d d' : Decoding} {value : Json} {field other : SettingsField}
    (h : d.set value field = some d') (hne : other ≠ field) :
    d'.input.read other = d.input.read other := by
  cases field <;> simp only [Decoding.set, Option.map_eq_some_iff] at h <;>
    obtain ⟨x, -, rfl⟩ := h <;> cases other <;> first | rfl | exact absurd rfl hne

theorem decodeChanges_read {entries : List (GoString × Json)} {d d' : Decoding}
    {field : SettingsField} (h : decodeChanges u entries d = .ok d')
    (hnot : ∀ entry ∈ entries, settingsField u entry.1 ≠ some field) :
    d'.input.read field = d.input.read field := by
  induction entries generalizing d with
  | nil =>
    obtain rfl : d = d' := by simpa [decodeChanges] using h
    rfl
  | cons entry entries ih =>
    obtain ⟨key, value⟩ := entry
    rw [decodeChanges] at h
    split at h
    · simp at h
    rename_i named hnamed
    split at h
    · simp at h
    rename_i d₁ hset
    have hrest := ih h fun other hother => hnot other (List.mem_cons_of_mem _ hother)
    have hne : field ≠ named := by
      rintro rfl
      exact hnot (key, value) List.mem_cons_self hnamed
    exact hrest.trans (Decoding.set_read hset hne)

/-- A field that no key names keeps its value. -/
theorem Apply_read {p : RuntimeSettingsPatch} {input out : RuntimeSettingsInput}
    {field : SettingsField} (h : p.Apply u input = .ok out) (hnot : ¬ p.Supplies u field) :
    out.read field = input.read field := by
  unfold RuntimeSettingsPatch.Apply at h
  split_ifs at h
  split at h
  · simp at h
  split at h
  · simp at h
  rename_i d hdecode
  obtain rfl := Except.ok.inj h
  exact decodeChanges_read u hdecode fun entry hentry hnamed => hnot ⟨entry, hentry, hnamed⟩

/-- An accepted patch names a revision. -/
theorem Apply_revision {p : RuntimeSettingsPatch} {input out : RuntimeSettingsInput}
    (h : p.Apply u input = .ok out) : 0 < p.revision := by
  unfold RuntimeSettingsPatch.Apply at h
  split_ifs at h with hrequired
  simp only [Bool.or_eq_true, decide_eq_true_eq, not_or] at hrequired
  omega

end

end Purels
