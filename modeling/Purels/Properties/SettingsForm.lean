import Purels.Config.Runtime
import Purels.Console.RuntimeForm
import Purels.Lib.Results

/-!
# The settings form and the settings

The server decides which settings can be stored, and the console shows them as texts and
switches.  A form that nobody has touched saves nothing, unless a host list of its group holds a
comma or a byte order mark at the end of a host: a text area is read as a list by its own rules.

* `received`: the stored settings, as the console has them.
* `numbersWithin_of_normalize`: every number of stored settings is within a bound.
* `untouched_form_iff`: when an untouched form saves nothing.
-/

namespace Purels.Properties

open Go Js Config Console Lib

/-! ## Settings in the console -/

/-- The settings that the console receives. -/
def received (settings : RuntimeSettingsInput) : RuntimeRecord
  | .aliasMode => .text (ofGo settings.aliasMode)
  | .uniqueUrls => .flag settings.uniqueURLs
  | .registrationEnabled => .flag settings.registrationEnabled
  | .totpEnabled => .flag settings.totpEnabled
  | .countBots => .flag settings.countBots
  | .forwardQuery => .flag settings.forwardQuery
  | .fallbackUrl => .text (ofGo settings.fallbackURL)
  | .autoPruneExpired => .flag settings.autoPruneExpired
  | .pruneGraceSeconds => .number settings.pruneGraceSeconds
  | .maxLinksPerUser => .number settings.maxLinksPerUser
  | .destinationDenylist => .list (settings.destinationDenylist.map ofGo)
  | .shortDomains => .list (settings.shortDomains.map ofGo)
  | .healthCheckEnabled => .flag settings.healthCheckEnabled
  | .healthCheckIntervalSeconds => .number settings.healthCheckIntervalSeconds
  | .rateLimitEnabled => .flag settings.rateLimitEnabled
  | .rateLimitLogin => .number settings.rateLimitLogin
  | .rateLimitApi => .number settings.rateLimitAPI
  | .rateLimitRedirect => .number settings.rateLimitRedirect
  | .rateLimitRegister => .number settings.rateLimitRegister
  | .rateLimit2fa => .number settings.rateLimit2FA
  | .rateLimitOidc => .number settings.rateLimitOIDC

/-- The hosts that a group shows in a text area. -/
def groupHosts (settings : RuntimeSettingsInput) : RuntimeGroup → List GoString
  | .creation => settings.shortDomains
  | .redirects => settings.destinationDenylist
  | _ => []

/-- A host that a text area keeps: without a comma, and without a byte order mark at an end. -/
structure KeptHost (host : GoString) : Prop where
  noComma : 0x2C ∉ host
  first : (runeCodes host).head? ≠ some 0xFEFF
  last : (runeCodes host).getLast? ≠ some 0xFEFF

/-! ## Numbers -/

/-- What a number of the settings is within. -/
def Within (high : Int) (n : Int) : Prop := 0 ≤ n ∧ n ≤ high

theorem within_of_checkRange {field : String} {low high value : Int} (hlow : 0 ≤ low)
    (h : checkRange field low high value = .ok ()) : Within high value := by
  unfold checkRange at h
  split at h
  · cases h
  · unfold Within
    omega

/-- The numbers of settings that pass the checks. -/
structure NumbersWithin (settings : RuntimeSettingsInput) : Prop where
  grace : Within maxRuntimeGrace settings.pruneGraceSeconds
  interval : Within maxRuntimeHealthCheck settings.healthCheckIntervalSeconds
  links : Within maxRuntimeLinks settings.maxLinksPerUser
  login : Within maxRuntimeRateLimit settings.rateLimitLogin
  api : Within maxRuntimeRateLimit settings.rateLimitAPI
  redirect : Within maxRuntimeRateLimit settings.rateLimitRedirect
  register : Within maxRuntimeRateLimit settings.rateLimitRegister
  twoFactor : Within maxRuntimeRateLimit settings.rateLimit2FA
  oidc : Within maxRuntimeRateLimit settings.rateLimitOIDC

theorem numbersWithin_of_checkBounds {settings : RuntimeSettingsInput}
    (h : checkBounds settings = .ok ()) : NumbersWithin settings := by
  unfold checkBounds at h
  obtain ⟨⟨⟩, hgrace, h⟩ := bind_eq_ok.mp h
  obtain ⟨⟨⟩, hinterval, h⟩ := bind_eq_ok.mp h
  obtain ⟨⟨⟩, hlinks, h⟩ := bind_eq_ok.mp h
  obtain ⟨⟨⟩, hlogin, h⟩ := bind_eq_ok.mp h
  obtain ⟨⟨⟩, hapi, h⟩ := bind_eq_ok.mp h
  obtain ⟨⟨⟩, hredirect, h⟩ := bind_eq_ok.mp h
  obtain ⟨⟨⟩, hregister, h⟩ := bind_eq_ok.mp h
  obtain ⟨⟨⟩, htwoFactor, hoidc⟩ := bind_eq_ok.mp h
  exact {
    grace := within_of_checkRange (by decide) hgrace
    interval := within_of_checkRange (by decide) hinterval
    links := within_of_checkRange (by decide) hlinks
    login := within_of_checkRange (by decide) hlogin
    api := within_of_checkRange (by decide) hapi
    redirect := within_of_checkRange (by decide) hredirect
    register := within_of_checkRange (by decide) hregister
    twoFactor := within_of_checkRange (by decide) htwoFactor
    oidc := within_of_checkRange (by decide) hoidc }

/-- So are those of settings that are normalized. -/
theorem numbersWithin_of_normalize {u : Unicode} {input settings : RuntimeSettingsInput}
    (h : NormalizeRuntimeSettings u input = .ok settings) : NumbersWithin settings := by
  obtain ⟨⟨-, -, hbounds, -, -⟩, hsettings⟩ := normalizeRuntimeSettings_ok u h
  apply numbersWithin_of_checkBounds
  rw [hsettings]
  exact hbounds

/-- A form keeps a number within a bound that a double can hold. -/
theorem newValue_within {high n : Int} (h : Within high n) (hhigh : high < 2 ^ 53) :
    newValue (.number n) (draftValue (.number n)) = some (.number n) := by
  obtain ⟨k, rfl⟩ := Int.eq_ofNat_of_zero_le h.1
  apply newValue_number
  have := h.2
  omega

/-! ## Hosts -/

section

variable {u : Unicode}

/-- A text area keeps a stored list when it keeps each host. -/
theorem readHosts_normal {hosts : List GoString} (h : ∀ host ∈ hosts, NormalHost u host) :
    readHosts ([0x0A].intercalate (hosts.map ofGo)) = hosts.map ofGo ↔
      ∀ host ∈ hosts, KeptHost host := by
  rw [readHosts_join_iff]
  · rw [List.forall_mem_map]
    refine forall₂_congr fun host hhost => ?_
    have htrim : trimSpace host = host := by
      rw [← (h host hhost).fold, foldHost, trimSpace_toLower_trimSpace]
    have hcomma : (0x2C : UInt16) ∈ ofGo host ↔ (0x2C : UInt8) ∈ host :=
      mem_ofGo_iff (b := 0x2C) (by decide)
    rw [hcomma, trim_ofGo_iff htrim]
    exact ⟨fun hkept => ⟨hkept.1, hkept.2.1, hkept.2.2⟩,
      fun hkept => ⟨hkept.noComma, hkept.first, hkept.last⟩⟩
  · rw [List.forall_mem_map]
    exact fun host hhost hnil => (h host hhost).ne_nil (ofGo_eq_nil hnil)
  · rw [List.forall_mem_map]
    intro host hhost hline
    have hbyte : (0x0A : UInt8) ∈ host := (mem_ofGo_iff (b := 0x0A) (by decide)).mp hline
    have hbare := (h host hhost).bare
    rw [bareHost, Bool.not_eq_true', containsAny, List.any_eq_false] at hbare
    exact hbare _ hbyte (by decide)

/-! ## The form of a group -/

/-- What an untouched form has of a field of its group. -/
theorem unchanged_iff {saved : RuntimeRecord} {group : RuntimeGroup} {key : RuntimeKey}
    (hkey : key ∈ runtimeGroups group) :
    Unchanged saved (runtimeDraft saved group) key ↔
      disabled (runtimeDraft saved group) key ∨
        newValue (saved key) (draftValue (saved key)) = some (saved key) := by
  unfold Unchanged
  have hdraft : runtimeDraft saved group key = some (draftValue (saved key)) := if_pos hkey
  simp only [hdraft, Option.mem_def, Option.some.injEq, forall_eq']

/-- A form keeps a field that is no list. -/
theorem newValue_received {settings : RuntimeSettingsInput} (h : NumbersWithin settings)
    {key : RuntimeKey} (hdeny : key ≠ .destinationDenylist) (hshort : key ≠ .shortDomains) :
    newValue (received settings key) (draftValue (received settings key)) =
      some (received settings key) := by
  cases key with
  | pruneGraceSeconds => exact newValue_within h.grace (by decide)
  | healthCheckIntervalSeconds => exact newValue_within h.interval (by decide)
  | maxLinksPerUser => exact newValue_within h.links (by decide)
  | rateLimitLogin => exact newValue_within h.login (by decide)
  | rateLimitApi => exact newValue_within h.api (by decide)
  | rateLimitRedirect => exact newValue_within h.redirect (by decide)
  | rateLimitRegister => exact newValue_within h.register (by decide)
  | rateLimit2fa => exact newValue_within h.twoFactor (by decide)
  | rateLimitOidc => exact newValue_within h.oidc (by decide)
  | destinationDenylist => exact absurd rfl hdeny
  | shortDomains => exact absurd rfl hshort
  | _ => rfl

/-- So such a field is unchanged. -/
theorem unchanged_received {settings : RuntimeSettingsInput} (h : NumbersWithin settings)
    {group : RuntimeGroup} {key : RuntimeKey} (hkey : key ∈ runtimeGroups group)
    (hdeny : key ≠ .destinationDenylist) (hshort : key ≠ .shortDomains) :
    Unchanged (received settings) (runtimeDraft (received settings) group) key :=
  (unchanged_iff hkey).mpr (Or.inr (newValue_received h hdeny hshort))

/-- A list is unchanged when a text area keeps it. -/
theorem unchanged_list_iff {saved : RuntimeRecord} {group : RuntimeGroup} {key : RuntimeKey}
    {hosts : List GoString} (hkey : key ∈ runtimeGroups group)
    (hlist : key = .destinationDenylist ∨ key = .shortDomains)
    (hsaved : saved key = .list (hosts.map ofGo)) (h : ∀ host ∈ hosts, NormalHost u host) :
    Unchanged saved (runtimeDraft saved group) key ↔ ∀ host ∈ hosts, KeptHost host := by
  have hdisabled : disabled (runtimeDraft saved group) key = false := by
    rcases hlist with rfl | rfl
    · rfl
    · rfl
  have hvalue : newValue (.list (hosts.map ofGo)) (draftValue (.list (hosts.map ofGo))) =
      some (.list (readHosts ([0x0A].intercalate (hosts.map ofGo)))) := rfl
  rw [unchanged_iff hkey, hdisabled, hsaved, hvalue, Option.some.injEq, RuntimeValue.list.injEq,
    readHosts_normal h]
  exact or_iff_right Bool.false_ne_true

end

/-- An untouched form of a group saves nothing exactly when a text area keeps each host that the
group shows; and whatever a form of the group holds, it saves fields of the group. -/
theorem untouched_form_iff (u : Unicode) {input settings : RuntimeSettingsInput}
    (h : NormalizeRuntimeSettings u input = .ok settings) (group : RuntimeGroup) :
    (runtimeChanges (received settings) (runtimeDraft (received settings) group) group = .ok [] ↔
      ∀ host ∈ groupHosts settings group, KeptHost host) ∧
    ∀ draft changes, runtimeChanges (received settings) draft group = .ok changes →
      ∀ change ∈ changes, change.1 ∈ runtimeGroups group := by
  refine ⟨?_, fun draft changes hchanges => runtimeChanges_keys hchanges⟩
  obtain ⟨⟨-, -, -, hshort, hdeny⟩, -⟩ := normalizeRuntimeSettings_ok u h
  have hshortNormal := (normalizeRuntimeHosts_normal u hshort).2
  have hdenyNormal := (normalizeRuntimeHosts_normal u hdeny).2
  rw [runtimeChanges_eq_nil_iff]
  constructor
  · intro hunchanged
    cases group with
    | creation =>
      have hkey : RuntimeKey.shortDomains ∈ runtimeGroups .creation := by decide
      exact (unchanged_list_iff hkey (Or.inr rfl) rfl hshortNormal).mp (hunchanged _ hkey)
    | redirects =>
      have hkey : RuntimeKey.destinationDenylist ∈ runtimeGroups .redirects := by decide
      exact (unchanged_list_iff hkey (Or.inl rfl) rfl hdenyNormal).mp (hunchanged _ hkey)
    | _ => exact List.forall_mem_nil _
  · intro hkept key hkey
    by_cases hisShort : key = .shortDomains
    · subst hisShort
      have hgroup : group = .creation := by
        revert hkey
        cases group <;> decide
      subst hgroup
      exact (unchanged_list_iff hkey (Or.inr rfl) rfl hshortNormal).mpr hkept
    · by_cases hisDeny : key = .destinationDenylist
      · subst hisDeny
        have hgroup : group = .redirects := by
          revert hkey
          cases group <;> decide
        subst hgroup
        exact (unchanged_list_iff hkey (Or.inl rfl) rfl hdenyNormal).mpr hkept
      · exact unchanged_received (numbersWithin_of_normalize h) hkey hisDeny hisShort

/-- Settings with two short domains in one entry. -/
def commaSettings : RuntimeSettingsInput where
  aliasMode := lit "random"
  healthCheckIntervalSeconds := 86400
  shortDomains := [lit "a.example,b.example"]

/-- The form that nobody has touched saves nothing of the group of the denylist. -/
theorem commaSettings_redirects :
    (runtimeChanges (received commaSettings) (runtimeDraft (received commaSettings) .redirects)
      .redirects = .ok [] ↔ ∀ host ∈ groupHosts commaSettings .redirects, KeptHost host) ∧
    ∀ draft changes, runtimeChanges (received commaSettings) draft .redirects = .ok changes →
      ∀ change ∈ changes, change.1 ∈ runtimeGroups .redirects := by
  have hnormal : NormalizeRuntimeSettings Unicode.ascii commaSettings = .ok commaSettings := by
    decide
  exact untouched_form_iff Unicode.ascii hnormal .redirects

/-- The other form splits the entry. -/
theorem comma_splits :
    NormalizeRuntimeSettings Unicode.ascii commaSettings = .ok commaSettings ∧
      runtimeChanges (received commaSettings) (runtimeDraft (received commaSettings) .creation)
        .creation = .ok [(.shortDomains, .list [ofGo (lit "a.example"), ofGo (lit "b.example")])] ∧
      ¬ ∀ (input settings : RuntimeSettingsInput) (group : RuntimeGroup),
        NormalizeRuntimeSettings Unicode.ascii input = .ok settings →
          runtimeChanges (received settings) (runtimeDraft (received settings) group) group =
            .ok [] := by
  have hnormal : NormalizeRuntimeSettings Unicode.ascii commaSettings = .ok commaSettings := by
    decide
  have hsplit : runtimeChanges (received commaSettings)
      (runtimeDraft (received commaSettings) .creation) .creation =
      .ok [(.shortDomains, .list [ofGo (lit "a.example"), ofGo (lit "b.example")])] := by
    have hnumbers := numbersWithin_of_normalize hnormal
    have hgroup : runtimeGroups .creation =
        [.aliasMode, .uniqueUrls, .maxLinksPerUser, .shortDomains] := rfl
    have hpassed : ∀ key ∈ runtimeGroups .creation, key ≠ .shortDomains →
        Unchanged (received commaSettings) (runtimeDraft (received commaSettings) .creation)
          key := by
      intro key hkey hshort
      refine unchanged_received hnumbers hkey ?_ hshort
      rintro rfl
      exact absurd hkey (by decide)
    rw [runtimeChanges, hgroup, changesOf_cons_unchanged (hpassed _ (by decide) (by decide)),
      changesOf_cons_unchanged (hpassed _ (by decide) (by decide)),
      changesOf_cons_unchanged (hpassed _ (by decide) (by decide))]
    decide
  refine ⟨hnormal, hsplit, fun hall => ?_⟩
  have hnothing := hall commaSettings commaSettings .creation hnormal
  rw [hsplit] at hnothing
  cases hnothing

end Purels.Properties
