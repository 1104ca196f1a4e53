import Purels.Config.Runtime
import Purels.Store.RuntimeSettings

/-!
# The settings document

`PUT /settings/runtime`, which replaces the whole document.  A body is decoded twice: into
a map of its members, and into the structure.

* `decodeSupplied` and `decodeDocument`: the two readings.
* `UpdateRuntimeSettings`: the handler, with the row its update leaves.
* `decodeMembers_totpEnabled`: the switch of the structure, by the members that name it.
-/

namespace Purels.Http

open Go

/-! ## Two readings of a body -/

/-- `decodeDocument` into a `map[string]json.RawMessage`: the members, of which the last one
with a key counts. -/
def decodeSupplied : Json → Option (List (GoString × Json))
  | .null => some []
  | .object members => some members
  | _ => none

/-- The value of a key in the map. -/
def supplied (members : List (GoString × Json)) (key : GoString) : Option Json :=
  ((members.filter fun member => member.1 == key).map Prod.snd).getLast?

/-- `null` decoded into a field: a list becomes nil, and nothing else changes. -/
def clear (d : Decoding) : SettingsField → Decoding
  | .destinationDenylist =>
    { d with input := { d.input with destinationDenylist := [] }, denylistSpare := [] }
  | .shortDomains => { d with input := { d.input with shortDomains := [] }, domainsSpare := [] }
  | _ => d

section

variable (u : Unicode)

/-- The members of an object decoded into the structure, in their order. -/
def decodeMembers : List (GoString × Json) → Decoding → Option Decoding
  | [], d => some d
  | (key, value) :: members, d =>
    match settingsField u key with
    | none => none
    | some field =>
      if value.isNull then decodeMembers members (clear d field)
      else
        match d.set value field with
        | none => none
        | some d => decodeMembers members d

/-- `decodeDocument` into a `RuntimeSettingsInput`. -/
def decodeDocument : Json → Option RuntimeSettingsInput
  | .null => some {}
  | .object members => (decodeMembers u members ⟨{}, [], []⟩).map Decoding.input
  | _ => none

/-! ## The handler -/

/-- What a request is answered with. -/
inductive PutAnswer where
  | refused (status : Nat) (code text : String)
  /-- `writeServiceError`, for an error of the validation or of the store. -/
  | invalid (e : Config.SettingsError)
  | failed (e : ServiceError)
  | saved (settings : RuntimeSettings)
  deriving DecidableEq

/-- `RuntimeProvider.Update`, up to the publication of what it has stored. -/
def updateSettings (input : RuntimeSettingsInput) (now : Instant) (row : Option RuntimeSettings) :
    PutAnswer × Option RuntimeSettings :=
  match Config.NormalizeRuntimeSettings u input with
  | .error e => (.invalid e, row)
  | .ok normalized =>
    match Store.UpdateRuntimeSettings normalized now row with
    | (.error e, row) => (.failed e, row)
    | (.ok settings, row) => (.saved settings, row)

def totpRequired : String :=
  "totp_enabled is required: a whole-document update must state the second factor's switch explicitly"

/-- `UpdateRuntimeSettings`.  The body is none when it does not start with a JSON value of
at most a mebibyte; `available` is that the handler has a settings manager. -/
def UpdateRuntimeSettings (available : Bool) (body : Option Json) (now : Instant)
    (row : Option RuntimeSettings) : PutAnswer × Option RuntimeSettings :=
  if !available then
    (.refused 503 "internal_error" "runtime settings are unavailable", row)
  else
    match body with
    | none => (.refused 400 "invalid_request" "invalid request", row)
    | some body =>
      match decodeSupplied body with
      | none => (.refused 400 "invalid_request" "invalid request", row)
      | some members =>
        match supplied members (lit "totp_enabled") with
        | none => (.refused 400 "invalid_request" totpRequired, row)
        | some _ =>
          match decodeDocument u body with
          | none => (.refused 400 "invalid_request" "invalid request", row)
          | some input => updateSettings u input now row

/-! ## The switch -/

/-- The members that set the switch: their keys name it up to case, and they are not null. -/
def switchValues (members : List (GoString × Json)) : List Json :=
  (members.filter fun member =>
    settingsField u member.1 == some .totpEnabled && !member.2.isNull).map Prod.snd

variable {u}

theorem clear_totpEnabled (d : Decoding) (field : SettingsField) :
    (clear d field).input.totpEnabled = d.input.totpEnabled := by
  cases field <;> rfl

theorem set_totpEnabled {d d' : Decoding} {value : Json} {field : SettingsField}
    (h : d.set value field = some d') :
    (field = .totpEnabled ∧ value = .bool d'.input.totpEnabled) ∨
      (field ≠ .totpEnabled ∧ d'.input.totpEnabled = d.input.totpEnabled) := by
  by_cases hfield : field = .totpEnabled
  · subst hfield
    obtain ⟨b, hb, rfl⟩ := Option.map_eq_some_iff.mp h
    cases value with
    | bool b' =>
      obtain rfl : b' = b := Option.some.inj hb
      exact .inl ⟨rfl, rfl⟩
    | _ => cases hb
  · have hread := Decoding.set_read h (Ne.symm hfield)
    exact .inr ⟨hfield, SettingsValue.bool.inj hread⟩

theorem switchValues_cons (key : GoString) (value : Json) (members : List (GoString × Json)) :
    switchValues u ((key, value) :: members) =
      if settingsField u key = some .totpEnabled ∧ ¬ value.isNull then
        value :: switchValues u members
      else switchValues u members := by
  unfold switchValues
  by_cases hkey : settingsField u key = some .totpEnabled <;> by_cases hnull : value.isNull <;>
    simp [hkey, hnull]

/-- The switch of the structure is the last value that sets it, and stays without one. -/
theorem decodeMembers_totpEnabled {members : List (GoString × Json)} {d d' : Decoding}
    (h : decodeMembers u members d = some d') :
    (switchValues u members = [] ∧ d'.input.totpEnabled = d.input.totpEnabled) ∨
      (switchValues u members).getLast? = some (.bool d'.input.totpEnabled) := by
  induction members generalizing d with
  | nil =>
    obtain rfl := Option.some.inj h
    exact .inl ⟨rfl, rfl⟩
  | cons member members ih =>
    obtain ⟨key, value⟩ := member
    rw [decodeMembers] at h
    rw [switchValues_cons]
    cases hkey : settingsField u key with
    | none =>
      rw [hkey] at h
      cases h
    | some field =>
      rw [hkey] at h
      dsimp only at h
      split_ifs at h with hnull
      · rw [if_neg fun hand => hand.2 hnull]
        rcases ih h with ⟨hnil, hsame⟩ | hlast
        · exact .inl ⟨hnil, hsame.trans (clear_totpEnabled d field)⟩
        · exact .inr hlast
      · split at h
        · cases h
        rename_i d₁ hset
        rcases set_totpEnabled hset with ⟨rfl, hvalue⟩ | ⟨hne, hsame⟩
        · rw [if_pos ⟨rfl, hnull⟩]
          refine .inr ?_
          rw [List.getLast?_cons]
          rcases ih h with ⟨hnil, hkept⟩ | hlast
          · rw [hnil, hkept, hvalue]
            rfl
          · rw [hlast]
            rfl
        · rw [if_neg fun hand => hne (Option.some.inj hand.1)]
          rcases ih h with ⟨hnil, hkept⟩ | hlast
          · exact .inl ⟨hnil, hkept.trans hsame⟩
          · exact .inr hlast

/-- An update that is saved stores the switch as it was decoded; any other leaves the row. -/
theorem updateSettings_cases (u : Unicode) (input : RuntimeSettingsInput) (now : Instant)
    (row : Option RuntimeSettings) :
    ((∀ settings, (updateSettings u input now row).1 ≠ .saved settings) ∧
      (updateSettings u input now row).2 = row) ∨
    ∃ settings, updateSettings u input now row = (.saved settings, some settings) ∧
      settings.totpEnabled = input.totpEnabled := by
  unfold updateSettings
  split
  · refine .inl ⟨fun settings h => ?_, rfl⟩
    cases h
  rename_i normalized hnormalized
  split
  · rename_i e row' hupdate
    refine .inl ⟨fun settings h => ?_, Store.updateRuntimeSettings_error hupdate⟩
    cases h
  · rename_i settings row' hupdate
    obtain ⟨before, -, -, hsettings, hrow⟩ := Store.updateRuntimeSettings_ok hupdate
    refine .inr ⟨settings, by rw [hrow], ?_⟩
    rw [hsettings, (Config.normalizeRuntimeSettings_ok u hnormalized).2]
    rfl

end

end Purels.Http
