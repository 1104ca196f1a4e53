import Purels.Js.Strings
import Purels.Lib.Patterns

/-!
# The console's reading of the tracking settings

`analytics-config.ts`, which checks what the server answers before it builds a script.

* The patterns, as this side writes them.
* `parseAnalyticsConfig`: the fields are trimmed, a base URL loses its last slashes, and one
  bad value refuses the whole.
* `parseAnalyticsConfig_eq_some`: what it accepts.
-/

namespace Purels.Console

open Js Lib

/-- The fields of the answer; `none` where the value is not a string. -/
structure AnalyticsPayload where
  ga4MeasurementId : Option JsString
  gtmContainerId : Option JsString
  googleTagId : Option JsString
  matomoUrl : Option JsString
  matomoSiteId : Option JsString
  clarityProjectId : Option JsString

/-- `AnalyticsConfig`. -/
structure AnalyticsConfig where
  ga4MeasurementId : JsString
  gtmContainerId : JsString
  googleTagId : JsString
  matomoUrl : JsString
  matomoSiteId : JsString
  clarityProjectId : JsString
  deriving DecidableEq

/-! ## Patterns -/

/-- `[A-Z0-9]`. -/
def isIdCode (c : Nat) : Bool := isUpperCode c || isDigitCode c

/-- Letters, digits and what else a path may be made of. -/
def isPathCode (c : Nat) : Bool :=
  isAlnumCode c || (Go.lit "._~!$&()*+,;=:@%-/").any fun b => c == b.toNat

/-- `^G-[A-Z0-9]{4,20}$`. -/
def ga4Pattern (s : List Nat) : Bool := headed [0x47, 0x2D] isIdCode 4 20 s

/-- `^GTM-[A-Z0-9]{4,12}$`. -/
def gtmPattern (s : List Nat) : Bool := headed [0x47, 0x54, 0x4D, 0x2D] isIdCode 4 12 s

/-- `^GT-[A-Z0-9]{4,20}$`. -/
def googleTagPattern (s : List Nat) : Bool := headed [0x47, 0x54, 0x2D] isIdCode 4 20 s

/-- The base URL of a Matomo. -/
def matomoUrlPattern (s : List Nat) : Bool := baseURL isPathCode s

/-- `^[1-9][0-9]{0,9}$`. -/
def matomoSitePattern (s : List Nat) : Bool :=
  headed [] isDigitCode 1 10 s && s.head?.any fun c => c != 0x30

/-- `^[a-z0-9]{6,20}$`. -/
def clarityPattern (s : List Nat) : Bool :=
  headed [] (fun c => isLowerCode c || isDigitCode c) 6 20 s

def maxIdLength : Nat := 64
def maxUrlLength : Nat := 2048

/-! ## Parsing -/

/-- `trimmed`. -/
def trimmed : Option JsString → JsString
  | some value => trim value
  | none => []

/-- `acceptable`: empty is off. -/
def acceptable (value : JsString) (pattern : List Nat → Bool) (maxLength : Nat) : Bool :=
  value == [] || (decide (value.length ≤ maxLength) && pattern (unitCodes value))

/-- The values `parseAnalyticsConfig` checks. -/
def readPayload (raw : AnalyticsPayload) : AnalyticsConfig where
  ga4MeasurementId := trimmed raw.ga4MeasurementId
  gtmContainerId := trimmed raw.gtmContainerId
  googleTagId := trimmed raw.googleTagId
  matomoUrl := stripSlashes (trimmed raw.matomoUrl)
  matomoSiteId := trimmed raw.matomoSiteId
  clarityProjectId := trimmed raw.clarityProjectId

/-- Some provider is switched on. -/
def AnalyticsConfig.configured (config : AnalyticsConfig) : Bool :=
  !(config.ga4MeasurementId == [] && config.gtmContainerId == [] && config.googleTagId == [] &&
    config.matomoUrl == [] && config.clarityProjectId == [])

/-- `parseAnalyticsConfig`; `none` is a payload that is not an object. -/
def parseAnalyticsConfig (payload : Option AnalyticsPayload) : Option AnalyticsConfig :=
  match payload with
  | none => none
  | some raw =>
    let config := readPayload raw
    if !acceptable config.ga4MeasurementId ga4Pattern maxIdLength then none
    else if !acceptable config.gtmContainerId gtmPattern maxIdLength then none
    else if !acceptable config.googleTagId googleTagPattern maxIdLength then none
    else if !acceptable config.matomoUrl matomoUrlPattern maxUrlLength then none
    else if !acceptable config.matomoSiteId matomoSitePattern maxIdLength then none
    else if !acceptable config.clarityProjectId clarityPattern maxIdLength then none
    else if (config.matomoUrl == []) != (config.matomoSiteId == []) then none
    else if !config.configured then none
    else some config

/-! ## What is accepted -/

/-- A configuration each of whose values is off or of its format, the two of Matomo together. -/
structure AnalyticsConfig.Sound (config : AnalyticsConfig) : Prop where
  ga4 : config.ga4MeasurementId = [] ∨ ga4Pattern (unitCodes config.ga4MeasurementId)
  gtm : config.gtmContainerId = [] ∨ gtmPattern (unitCodes config.gtmContainerId)
  googleTag : config.googleTagId = [] ∨ googleTagPattern (unitCodes config.googleTagId)
  matomo : config.matomoUrl = [] ∧ config.matomoSiteId = [] ∨
    matomoUrlPattern (unitCodes config.matomoUrl) ∧
      matomoSitePattern (unitCodes config.matomoSiteId)
  clarity : config.clarityProjectId = [] ∨ clarityPattern (unitCodes config.clarityProjectId)

section

variable {value : JsString} {pattern : List Nat → Bool} {maxLength : Nat}

theorem acceptable_iff : acceptable value pattern maxLength ↔
    value = [] ∨ value.length ≤ maxLength ∧ pattern (unitCodes value) := by
  unfold acceptable
  rw [Bool.or_eq_true, beq_iff_eq, Bool.and_eq_true, decide_eq_true_iff]

/-- A pattern that bounds the length decides alone. -/
theorem acceptable_iff_pattern (h : ∀ s, pattern s → s.length ≤ maxLength) :
    acceptable value pattern maxLength ↔ value = [] ∨ pattern (unitCodes value) := by
  rw [acceptable_iff]
  constructor
  · rintro (hempty | ⟨-, hmatch⟩)
    · exact Or.inl hempty
    · exact Or.inr hmatch
  · rintro (hempty | hmatch)
    · exact Or.inl hempty
    · refine Or.inr ⟨?_, hmatch⟩
      rw [← length_unitCodes]
      exact h _ hmatch

end

theorem ga4Pattern_length (s : List Nat) (h : ga4Pattern s) : s.length ≤ maxIdLength :=
  (headed_length h).trans (by decide)

theorem gtmPattern_length (s : List Nat) (h : gtmPattern s) : s.length ≤ maxIdLength :=
  (headed_length h).trans (by decide)

theorem googleTagPattern_length (s : List Nat) (h : googleTagPattern s) :
    s.length ≤ maxIdLength :=
  (headed_length h).trans (by decide)

theorem matomoSitePattern_length (s : List Nat) (h : matomoSitePattern s) :
    s.length ≤ maxIdLength :=
  (headed_length (Bool.and_eq_true_iff.mp h).1).trans (by decide)

theorem clarityPattern_length (s : List Nat) (h : clarityPattern s) : s.length ≤ maxIdLength :=
  (headed_length h).trans (by decide)

theorem matomoUrlPattern_ne_nil {s : JsString} (h : matomoUrlPattern (unitCodes s)) : s ≠ [] := by
  rintro rfl
  exact Bool.false_ne_true h

theorem matomoSitePattern_ne_nil {s : JsString} (h : matomoSitePattern (unitCodes s)) :
    s ≠ [] := by
  rintro rfl
  exact Bool.false_ne_true h

/-- The checks on the two Matomo values: both off, or both of their formats and the address
not too long. -/
theorem matomo_accepted {url site : JsString} :
    (acceptable url matomoUrlPattern maxUrlLength ∧ acceptable site matomoSitePattern maxIdLength ∧
      (url = [] ↔ site = [])) ↔
    (url = [] ∧ site = [] ∨ matomoUrlPattern (unitCodes url) ∧ matomoSitePattern (unitCodes site)) ∧
      url.length ≤ maxUrlLength := by
  rw [acceptable_iff, acceptable_iff_pattern matomoSitePattern_length]
  constructor
  · rintro ⟨hurl, hsite, hpair⟩
    by_cases hempty : url = []
    · refine ⟨Or.inl ⟨hempty, hpair.mp hempty⟩, ?_⟩
      rw [hempty]
      exact Nat.zero_le _
    · obtain ⟨hlength, hmatch⟩ := hurl.resolve_left hempty
      exact ⟨Or.inr ⟨hmatch, hsite.resolve_left fun h => hempty (hpair.mpr h)⟩, hlength⟩
  · rintro ⟨⟨rfl, rfl⟩ | ⟨hmatch, hsite⟩, hlength⟩
    · exact ⟨Or.inl rfl, Or.inl rfl, Iff.rfl⟩
    · refine ⟨Or.inr ⟨hlength, hmatch⟩, Or.inr hsite, ?_⟩
      exact iff_of_false (matomoUrlPattern_ne_nil hmatch) (matomoSitePattern_ne_nil hsite)

/-- What is accepted: a sound configuration with something switched on and an address that is
not too long. -/
theorem parseAnalyticsConfig_eq_some {raw : AnalyticsPayload} {config : AnalyticsConfig} :
    parseAnalyticsConfig (some raw) = some config ↔
      config = readPayload raw ∧ config.Sound ∧ config.matomoUrl.length ≤ maxUrlLength ∧
        config.configured := by
  unfold parseAnalyticsConfig
  dsimp only
  constructor
  · intro h
    split_ifs at h with hga4 hgtm htag hurl hsite hclarity hpair hconfigured
    obtain rfl := Option.some.inj h
    rw [Bool.not_eq_true, Bool.not_eq_false'] at hga4 hgtm htag hurl hsite hclarity hconfigured
    rw [bne_iff_ne, not_not] at hpair
    have hmatomo := matomo_accepted.mp ⟨hurl, hsite, by
      rw [← beq_iff_eq (α := JsString), ← beq_iff_eq (α := JsString), hpair]⟩
    exact ⟨rfl, {
      ga4 := (acceptable_iff_pattern ga4Pattern_length).mp hga4
      gtm := (acceptable_iff_pattern gtmPattern_length).mp hgtm
      googleTag := (acceptable_iff_pattern googleTagPattern_length).mp htag
      matomo := hmatomo.1
      clarity := (acceptable_iff_pattern clarityPattern_length).mp hclarity },
      hmatomo.2, hconfigured⟩
  · rintro ⟨rfl, hsound, hlength, hconfigured⟩
    obtain ⟨hurl, hsite, hpair⟩ := matomo_accepted.mpr ⟨hsound.matomo, hlength⟩
    have hsame : ((readPayload raw).matomoUrl == []) = ((readPayload raw).matomoSiteId == []) := by
      rw [Bool.eq_iff_iff, beq_iff_eq, beq_iff_eq]
      exact hpair
    rw [(acceptable_iff_pattern ga4Pattern_length).mpr hsound.ga4,
      (acceptable_iff_pattern gtmPattern_length).mpr hsound.gtm,
      (acceptable_iff_pattern googleTagPattern_length).mpr hsound.googleTag, hurl, hsite,
      (acceptable_iff_pattern clarityPattern_length).mpr hsound.clarity, hsame, hconfigured]
    rw [bne_self_eq_false]
    rfl

end Purels.Console
