import Purels.Http.RuntimeSettings

/-!
# The switch of the second factor in a settings document

The handler looks for the switch in one reading of the body and takes its value from the
other, which matches keys up to case and skips `null`.

* `StatesFactor`: a request is refused, or stores the boolean that its body states.
* `SwitchStated`: the two readings agree on the switch.
* `put_states_factor_iff`, for every body, and `null_switch_stored`, a body with a switch
  that is `null`.
-/

namespace Purels.Properties

open Go Http

section

variable (u : Unicode)

/-- The request is refused and stores nothing, or the body's `totp_enabled` is a boolean
and is what is stored. -/
def StatesFactor (available : Bool) (body : Option Json) (now : Instant)
    (row : Option RuntimeSettings) : Prop :=
  ((∀ settings, (UpdateRuntimeSettings u available body now row).1 ≠ .saved settings) ∧
    (UpdateRuntimeSettings u available body now row).2 = row) ∨
  ∃ members b settings, body = some (.object members) ∧
    supplied members (lit "totp_enabled") = some (.bool b) ∧
    (UpdateRuntimeSettings u available body now row).2 = some settings ∧ settings.totpEnabled = b

/-- The last member named `totp_enabled` is a boolean, and so is the last one of that name
up to case that is not null, with the same value. -/
def SwitchStated (members : List (GoString × Json)) : Prop :=
  ∃ b, supplied members (lit "totp_enabled") = some (.bool b) ∧
    (switchValues u members).getLast? = some (.bool b)

/-- The body is an object that names the switch and can be stored. -/
structure Storable (members : List (GoString × Json)) (row : Option RuntimeSettings) : Prop where
  named : (supplied members (lit "totp_enabled")).isSome
  settings : ∃ input normalized before, decodeDocument u (.object members) = some input ∧
    Config.NormalizeRuntimeSettings u input = .ok normalized ∧ row = some before ∧
    Store.storableSettings normalized ∧ before.revision + 1 < 2 ^ 63

variable {u} {available : Bool} {members : List (GoString × Json)} {now : Instant}
  {row : Option RuntimeSettings}

/-! ## What is stored -/

/-- An update of settings that can be stored is saved. -/
theorem updateSettings_saved (now : Instant) {input normalized : RuntimeSettingsInput}
    {before : RuntimeSettings}
    (hnormalized : Config.NormalizeRuntimeSettings u input = .ok normalized)
    (hstorable : Store.storableSettings normalized) (hrevision : before.revision + 1 < 2 ^ 63) :
    ∃ settings, updateSettings u input now (some before) = (.saved settings, some settings) := by
  have hfits : ¬ (!Store.storableSettings normalized ||
      decide ((2 : Int) ^ 63 ≤ before.revision + 1)) := by
    rw [hstorable, decide_eq_false (by omega)]
    decide
  have hupdate : Store.UpdateRuntimeSettings normalized now (some before) =
      (.ok (Store.nextSettings normalized now before),
        some (Store.nextSettings normalized now before)) := if_neg hfits
  refine ⟨Store.nextSettings normalized now before, ?_⟩
  unfold updateSettings
  rw [hnormalized]
  dsimp only
  rw [hupdate]

theorem storable_of_saved {input : RuntimeSettingsInput} {settings : RuntimeSettings}
    (h : (updateSettings u input now row).1 = .saved settings) :
    ∃ normalized before, Config.NormalizeRuntimeSettings u input = .ok normalized ∧
      row = some before ∧ Store.storableSettings normalized ∧ before.revision + 1 < 2 ^ 63 := by
  unfold updateSettings at h
  split at h
  · cases h
  rename_i normalized hnormalized
  split at h
  · cases h
  rename_i settings' row' hupdate
  unfold Store.UpdateRuntimeSettings Store.updateRuntimeSettings at hupdate
  split at hupdate
  · cases hupdate
  rename_i before hbefore
  split_ifs at hupdate with hfits
  · cases hupdate
  · rw [Bool.or_eq_true, not_or, decide_eq_true_eq] at hfits
    exact ⟨normalized, before, hnormalized, (Option.filter_eq_some_iff.mp hbefore).1,
      by simpa using hfits.1, by omega⟩

/-- A body that can be stored is. -/
theorem put_saved (now : Instant) (havailable : available) (h : Storable u members row) :
    ∃ input settings, decodeDocument u (.object members) = some input ∧
      UpdateRuntimeSettings u available (some (.object members)) now row =
        (.saved settings, some settings) ∧
      settings.totpEnabled = input.totpEnabled := by
  obtain ⟨hnamed, input, normalized, before, hdecode, hnormalized, rfl, hstorable, hrevision⟩ := h
  obtain ⟨value, hvalue⟩ := Option.isSome_iff_exists.mp hnamed
  have hput : UpdateRuntimeSettings u available (some (.object members)) now (some before) =
      updateSettings u input now (some before) := by
    unfold UpdateRuntimeSettings
    rw [havailable, if_neg (by decide)]
    dsimp only [decodeSupplied]
    rw [hvalue]
    dsimp only
    rw [hdecode]
  obtain ⟨settings, hsaved⟩ := updateSettings_saved now hnormalized hstorable hrevision
  refine ⟨input, settings, hdecode, hput.trans hsaved, ?_⟩
  rcases updateSettings_cases u input now (some before) with ⟨hnot, -⟩ | ⟨settings', hsaved', htotp⟩
  · exact absurd (congrArg Prod.fst hsaved) (hnot settings)
  · rw [hsaved] at hsaved'
    obtain rfl : settings = settings' := Option.some.inj (Prod.mk.inj hsaved').2
    exact htotp

/-- Any other request stores nothing. -/
theorem put_refused {body : Option Json}
    (h : available → ∀ members, body = some (.object members) → ¬ Storable u members row) :
    (∀ settings, (UpdateRuntimeSettings u available body now row).1 ≠ .saved settings) ∧
      (UpdateRuntimeSettings u available body now row).2 = row := by
  have hrefused : ∀ status code text settings,
      PutAnswer.refused status code text ≠ .saved settings := by
    intro status code text settings h
    cases h
  unfold UpdateRuntimeSettings
  split_ifs with havailable
  · exact ⟨hrefused _ _ _, rfl⟩
  rw [Bool.not_eq_true', Bool.not_eq_false] at havailable
  split
  · exact ⟨hrefused _ _ _, rfl⟩
  rename_i body
  split
  · exact ⟨hrefused _ _ _, rfl⟩
  rename_i members hmembers
  split
  · exact ⟨hrefused _ _ _, rfl⟩
  rename_i value hvalue
  split
  · exact ⟨hrefused _ _ _, rfl⟩
  rename_i input hdecode
  rcases updateSettings_cases u input now row with hnot | ⟨settings, hsaved, -⟩
  · exact hnot
  have hbody : body = .object members := by
    cases body with
    | object all => rw [Option.some.inj hmembers]
    | null =>
      obtain rfl := Option.some.inj hmembers
      cases hvalue
    | _ => cases hmembers
  subst hbody
  obtain ⟨normalized, before, hsettings⟩ := storable_of_saved (congrArg Prod.fst hsaved)
  have hnamed : (supplied members (lit "totp_enabled")).isSome := by
    rw [hvalue]
    rfl
  exact absurd ⟨hnamed, input, normalized, before, hdecode, hsettings⟩ (h havailable members rfl)

/-! ## The two readings -/

theorem settingsField_totpEnabled (u : Unicode) :
    settingsField u (lit "totp_enabled") = some .totpEnabled := by
  have hfound : (SettingsField.all.find? fun field => field.tag == lit "totp_enabled") =
      some .totpEnabled := by
    decide
  unfold settingsField fieldOf
  rw [hfound]

/-- A boolean of that very name is among the values that set the switch. -/
theorem switchValues_ne_nil {b : Bool}
    (h : supplied members (lit "totp_enabled") = some (.bool b)) :
    switchValues u members ≠ [] := by
  obtain ⟨member, hmember, hvalue⟩ := List.mem_map.mp (List.mem_of_getLast? h)
  obtain ⟨hmem, hkey⟩ := List.mem_filter.mp hmember
  refine List.ne_nil_of_mem (List.mem_map_of_mem (List.mem_filter.mpr ⟨hmem, ?_⟩))
  rw [beq_iff_eq.mp hkey, settingsField_totpEnabled, hvalue]
  rfl

theorem decodeDocument_totpEnabled {input : RuntimeSettingsInput}
    (h : decodeDocument u (.object members) = some input) (hne : switchValues u members ≠ []) :
    (switchValues u members).getLast? = some (.bool input.totpEnabled) := by
  obtain ⟨d, hdecode, rfl⟩ := Option.map_eq_some_iff.mp h
  rcases decodeMembers_totpEnabled hdecode with ⟨hnil, -⟩ | hlast
  · exact absurd hnil hne
  · exact hlast

/-- A request states the switch unless its body can be stored and the readings differ. -/
theorem put_states_factor_iff {body : Option Json} :
    StatesFactor u available body now row ↔
      (available → ∀ members, body = some (.object members) → Storable u members row →
        SwitchStated u members) := by
  constructor
  · intro hstates havailable members hbody hstorable
    subst hbody
    obtain ⟨input, settings, hdecode, hsaved, htotp⟩ := put_saved now havailable hstorable
    rcases hstates with ⟨hnot, -⟩ | ⟨members', b, settings', hbody, hsupplied, hrow, hb⟩
    · exact absurd (congrArg Prod.fst hsaved) (hnot settings)
    · obtain rfl : members = members' := Json.object.inj (Option.some.inj hbody)
      rw [hsaved] at hrow
      obtain rfl : settings = settings' := Option.some.inj hrow
      refine ⟨b, hsupplied, ?_⟩
      rw [decodeDocument_totpEnabled hdecode (switchValues_ne_nil hsupplied), ← htotp, hb]
  · intro hstated
    by_cases hstorable : available ∧ ∃ members, body = some (.object members) ∧
        Storable u members row
    · obtain ⟨havailable, members, rfl, hstorable⟩ := hstorable
      obtain ⟨b, hsupplied, hlast⟩ := hstated havailable members rfl hstorable
      obtain ⟨input, settings, hdecode, hsaved, htotp⟩ :=
        put_saved now havailable hstorable
      refine .inr ⟨members, b, settings, rfl, hsupplied, congrArg Prod.snd hsaved, ?_⟩
      have hdecoded := decodeDocument_totpEnabled hdecode (switchValues_ne_nil hsupplied)
      rw [hlast] at hdecoded
      rw [htotp]
      exact (Json.bool.inj (Option.some.inj hdecoded)).symm
    · exact .inl (put_refused fun havailable members hbody hcan =>
        hstorable ⟨havailable, members, hbody, hcan⟩)

end

/-! ## A null -/

/-- A document with this value for the switch. -/
def switchDocument (value : Json) : Json :=
  .object [(lit "totp_enabled", value), (lit "alias_mode", .string (lit "random")),
    (lit "health_check_interval_seconds", .number (lit "1"))]

/-- The document with a null for the switch is saved, and switches the second factor off. -/
theorem null_switch_stored :
    ¬ ∀ (body : Option Json) (now : Instant) (row : Option RuntimeSettings),
      StatesFactor .ascii true body now row := by
  intro hclaim
  have hput : UpdateRuntimeSettings .ascii true (some (switchDocument .null)) 0
      (some { totpEnabled := true, revision := 1 }) =
      (.saved { aliasMode := lit "random", healthCheckIntervalSeconds := 1, revision := 2 },
        some { aliasMode := lit "random", healthCheckIntervalSeconds := 1, revision := 2 }) := by
    decide
  rcases hclaim (some (switchDocument .null)) 0 (some { totpEnabled := true, revision := 1 }) with
    ⟨hnot, -⟩ | ⟨members, b, settings, hbody, hsupplied, -⟩
  · exact hnot _ (congrArg Prod.fst hput)
  · obtain rfl := Json.object.inj (Option.some.inj hbody)
    have hnull : supplied [(lit "totp_enabled", .null),
        (lit "alias_mode", .string (lit "random")),
        (lit "health_check_interval_seconds", .number (lit "1"))] (lit "totp_enabled") =
        some .null := by
      rfl
    rw [hnull] at hsupplied
    cases hsupplied

/-- So does one whose second spelling of the switch is off. -/
example : (UpdateRuntimeSettings .ascii true
    (some (.object [(lit "totp_enabled", .bool true), (lit "TOTP_enabled", .bool false),
      (lit "alias_mode", .string (lit "random")),
      (lit "health_check_interval_seconds", .number (lit "1"))]))
    0 (some { totpEnabled := true, revision := 1 })).2.map (·.totpEnabled) = some false := by
  decide

end Purels.Properties
