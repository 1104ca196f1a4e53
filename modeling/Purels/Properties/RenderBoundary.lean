import Purels.Console.AnalyticsConfig
import Purels.Http.Trackers

/-!
# Two render boundaries

The pages of the server and those of the console carry the same trackers, each side checking
the stored row for itself.  The console trims the fields and bounds the length of the base
URL, the server does neither.

* `Agree`: a provider has a tracker on both sides or on neither, built from the same values.
* `renderable_iff`: what the server lets through, in the console's terms.
* `boundaries_agree_iff`: the rows that the two sides agree on.
-/

namespace Purels.Properties

open Go Js Service Http Console Lib

inductive Provider where
  | ga4
  | gtm
  | googleTag
  | matomo
  | clarity
  deriving DecidableEq

/-! ## The two sides -/

/-- The answer that a stored row is sent as. -/
def payloadOf (row : AnalyticsSettings) : AnalyticsPayload where
  ga4MeasurementId := some (ofGo row.ga4MeasurementID)
  gtmContainerId := some (ofGo row.gtmContainerID)
  googleTagId := some (ofGo row.googleTagID)
  matomoUrl := some (ofGo row.matomoURL)
  matomoSiteId := some (ofGo row.matomoSiteID)
  clarityProjectId := some (ofGo row.clarityProjectID)

/-- The provider of a tracker. -/
def providerOf : Tracker → Provider
  | .ga4 _ => .ga4
  | .gtm _ => .gtm
  | .googleTag _ => .googleTag
  | .matomo _ _ => .matomo
  | .clarity _ => .clarity

/-- The values of a tracker, as they would reach the console. -/
def valuesOf : Tracker → List JsString
  | .ga4 measurementID => [ofGo measurementID]
  | .gtm containerID => [ofGo containerID]
  | .googleTag tagID => [ofGo tagID]
  | .matomo baseURL siteID => [ofGo baseURL, ofGo siteID]
  | .clarity projectID => [ofGo projectID]

/-- The field that switches a provider on. -/
def field (config : AnalyticsConfig) : Provider → JsString
  | .ga4 => config.ga4MeasurementId
  | .gtm => config.gtmContainerId
  | .googleTag => config.googleTagId
  | .matomo => config.matomoUrl
  | .clarity => config.clarityProjectId

/-- The values of a provider's script in the console. -/
def values (config : AnalyticsConfig) : Provider → List JsString
  | .ga4 => [config.ga4MeasurementId]
  | .gtm => [config.gtmContainerId]
  | .googleTag => [config.googleTagId]
  | .matomo => [config.matomoUrl, config.matomoSiteId]
  | .clarity => [config.clarityProjectId]

/-- The two sides agree on a row: the server writes a tracker for a provider exactly when the
console accepts the row with the provider's field set, and the values are the same. -/
def Agree (u : Unicode) (row : AnalyticsSettings) : Prop :=
  ∀ provider,
    ((∃ tracker ∈ emitted u row, providerOf tracker = provider) ↔
      ∃ config, parseAnalyticsConfig (some (payloadOf row)) = some config ∧
        field config provider ≠ []) ∧
    ∀ tracker ∈ emitted u row, providerOf tracker = provider →
      ∀ config, parseAnalyticsConfig (some (payloadOf row)) = some config →
        values config provider = valuesOf tracker

/-- The fields of a row as they are sent. -/
def sent (row : AnalyticsSettings) : AnalyticsConfig where
  ga4MeasurementId := ofGo row.ga4MeasurementID
  gtmContainerId := ofGo row.gtmContainerID
  googleTagId := ofGo row.googleTagID
  matomoUrl := ofGo row.matomoURL
  matomoSiteId := ofGo row.matomoSiteID
  clarityProjectId := ofGo row.clarityProjectID

/-- The fields of a row, trimmed, and the base URL without its last slashes. -/
def tidied (row : AnalyticsSettings) : AnalyticsConfig where
  ga4MeasurementId := trim (ofGo row.ga4MeasurementID)
  gtmContainerId := trim (ofGo row.gtmContainerID)
  googleTagId := trim (ofGo row.googleTagID)
  matomoUrl := stripSlashes (trim (ofGo row.matomoURL))
  matomoSiteId := trim (ofGo row.matomoSiteID)
  clarityProjectId := trim (ofGo row.clarityProjectID)

theorem readPayload_payloadOf (row : AnalyticsSettings) : readPayload (payloadOf row) = tidied row :=
  rfl

/-! ## One value on both sides -/

section

variable {s : GoString}

/-- A visible text is read as the same characters on both sides. -/
theorem unitCodes_of_visible
    (h : (∀ c ∈ unitCodes (ofGo s), Visible c) ∨ ∀ c ∈ runeCodes s, Visible c) :
    unitCodes (ofGo s) = runeCodes s := by
  apply unitCodes_ofGo
  rcases h with hunits | hrunes
  · apply runeCodes_of_ofGo
    intro x hx
    have := (hunits x.toNat (List.mem_map_of_mem hx)).2
    omega
  · intro c hc
    have := (hrunes c hc).2
    show c < 0x80
    omega

/-- A pattern of visible characters decides the same on both sides. -/
theorem pattern_sent {pattern : List Nat → Bool}
    (hvisible : ∀ codes, pattern codes → ∀ c ∈ codes, Visible c) :
    pattern (unitCodes (ofGo s)) ↔ pattern (runeCodes s) := by
  constructor
  · intro h
    rw [← unitCodes_of_visible (Or.inl (hvisible _ h))]
    exact h
  · intro h
    rw [unitCodes_of_visible (Or.inr (hvisible _ h))]
    exact h

/-- So does a pattern for a value that may be off. -/
theorem off_or_pattern_sent {pattern : List Nat → Bool}
    (hvisible : ∀ codes, pattern codes → ∀ c ∈ codes, Visible c) :
    (ofGo s = [] ∨ pattern (unitCodes (ofGo s))) ↔ (s = [] ∨ pattern (runeCodes s)) := by
  rw [pattern_sent hvisible]
  refine or_congr_left ⟨ofGo_eq_nil, ?_⟩
  rintro rfl
  rfl

/-- A value that is off or has its format is trimmed. -/
theorem trim_off_or_pattern {text : JsString} {pattern : List Nat → Bool}
    (hvisible : ∀ codes, pattern codes → ∀ c ∈ codes, Visible c)
    (h : text = [] ∨ pattern (unitCodes text)) : trim text = text := by
  rcases h with rfl | hmatch
  · rfl
  · exact trim_visible (hvisible _ hmatch)

/-- Dropping `c` from the end changes nothing when the last element is another. -/
theorem rdropWhile_eq_self_iff_getLast? {α : Type} [BEq α] [LawfulBEq α] (c : α) (l : List α) :
    l.rdropWhile (· == c) = l ↔ l.getLast? ≠ some c := by
  rw [List.rdropWhile_eq_self_iff]
  constructor
  · intro h hlast
    have hne : l ≠ [] := by
      rintro rfl
      cases hlast
    rw [List.getLast?_eq_some_getLast hne, Option.some.injEq] at hlast
    exact h hne (beq_iff_eq.mpr hlast)
  · intro h hne heq
    rw [List.getLast?_eq_some_getLast hne, beq_iff_eq.mp heq] at h
    exact h rfl

/-- Both sides see the same slashes at the end of an address. -/
theorem stripSlashes_sent (h : ∀ c ∈ runeCodes s, Visible c) :
    stripSlashes (ofGo s) = ofGo s ↔ trimRightByte 0x2F s = s := by
  obtain ⟨-, hcodes⟩ := ascii_of_runeCodes fun c hc => by
    have := (h c hc).2
    show c < 0x80
    omega
  have hlast : (ofGo s).getLast?.map UInt16.toNat = s.getLast?.map UInt8.toNat := by
    rw [← List.getLast?_map, ← List.getLast?_map, ← hcodes]
    exact congrArg List.getLast? (unitCodes_of_visible (Or.inr h))
  unfold stripSlashes trimRightByte
  rw [rdropWhile_eq_self_iff_getLast?, rdropWhile_eq_self_iff_getLast?, not_iff_not]
  constructor
  · intro hslash
    rw [hslash] at hlast
    obtain ⟨b, hb, hcode⟩ := Option.map_eq_some_iff.mp hlast.symm
    rw [hb, UInt8.toNat_inj.mp (hcode.trans rfl : b.toNat = (0x2F : UInt8).toNat)]
  · intro hslash
    rw [hslash] at hlast
    obtain ⟨x, hx, hcode⟩ := Option.map_eq_some_iff.mp hlast
    rw [hx, UInt16.toNat_inj.mp (hcode.trans rfl : x.toNat = (0x2F : UInt16).toNat)]

/-! ## What the server lets through -/

theorem ga4Pattern_visible (codes : List Nat) (h : ga4Pattern codes) : ∀ c ∈ codes, Visible c :=
  fun c hc => (analyticsGA4Pattern_upper h c hc).1

theorem gtmPattern_visible (codes : List Nat) (h : gtmPattern codes) : ∀ c ∈ codes, Visible c :=
  fun c hc => (analyticsGTMPattern_upper h c hc).1

theorem googleTagPattern_visible (codes : List Nat) (h : googleTagPattern codes) :
    ∀ c ∈ codes, Visible c :=
  fun c hc => (analyticsGoogleTagPattern_upper h c hc).1

theorem matomoUrlPattern_visible (codes : List Nat) (h : matomoUrlPattern codes) :
    ∀ c ∈ codes, Visible c :=
  analyticsMatomoPattern_visible h

theorem matomoSitePattern_visible (codes : List Nat) (h : matomoSitePattern codes) :
    ∀ c ∈ codes, Visible c :=
  analyticsSitePattern_visible h

theorem clarityPattern_visible (codes : List Nat) (h : clarityPattern codes) :
    ∀ c ∈ codes, Visible c :=
  fun c hc => (analyticsClarityPattern_lower h c hc).1

end

section

variable {row : AnalyticsSettings}

/-- The two Matomo values: off together, or of their formats and without a last slash. -/
theorem matomo_sent :
    (row.matomoURL = [] ∧ row.matomoSiteID = [] ∨
      analyticsMatomoPattern (runeCodes row.matomoURL) ∧
        trimRightByte 0x2F row.matomoURL = row.matomoURL ∧
        analyticsSitePattern (runeCodes row.matomoSiteID)) ↔
    ((sent row).matomoUrl = [] ∧ (sent row).matomoSiteId = [] ∨
      matomoUrlPattern (unitCodes (sent row).matomoUrl) ∧
        matomoSitePattern (unitCodes (sent row).matomoSiteId)) ∧
      stripSlashes (sent row).matomoUrl = (sent row).matomoUrl := by
  constructor
  · rintro (⟨hurl, hsite⟩ | ⟨hmatch, htrim, hsite⟩)
    · simp only [sent, hurl, hsite]
      exact ⟨Or.inl ⟨rfl, rfl⟩, rfl⟩
    · refine ⟨Or.inr ⟨(pattern_sent matomoUrlPattern_visible).mpr hmatch,
        (pattern_sent matomoSitePattern_visible).mpr hsite⟩, ?_⟩
      exact (stripSlashes_sent (analyticsMatomoPattern_visible hmatch)).mpr htrim
  · rintro ⟨⟨hurl, hsite⟩ | ⟨hmatch, hsite⟩, hstrip⟩
    · exact Or.inl ⟨ofGo_eq_nil hurl, ofGo_eq_nil hsite⟩
    · have hrunes := (pattern_sent matomoUrlPattern_visible).mp hmatch
      refine Or.inr ⟨hrunes, ?_, (pattern_sent matomoSitePattern_visible).mp hsite⟩
      exact (stripSlashes_sent (analyticsMatomoPattern_visible hrunes)).mp hstrip

/-- The server lets a row through when its fields are sound as they are sent and there is
nothing to tidy. -/
theorem renderable_iff : Renderable row ↔ (sent row).Sound ∧ tidied row = sent row := by
  constructor
  · intro h
    obtain ⟨hmatomo, hstrip⟩ := matomo_sent.mp h.matomo
    have hsound : (sent row).Sound := {
      ga4 := (off_or_pattern_sent ga4Pattern_visible).mpr h.ga4
      gtm := (off_or_pattern_sent gtmPattern_visible).mpr h.gtm
      googleTag := (off_or_pattern_sent googleTagPattern_visible).mpr h.googleTag
      matomo := hmatomo
      clarity := (off_or_pattern_sent clarityPattern_visible).mpr h.clarity }
    have hurl : trim (sent row).matomoUrl = (sent row).matomoUrl :=
      trim_off_or_pattern matomoUrlPattern_visible (hmatomo.imp And.left And.left)
    have hsite : trim (sent row).matomoSiteId = (sent row).matomoSiteId :=
      trim_off_or_pattern matomoSitePattern_visible (hmatomo.imp And.right And.right)
    refine ⟨hsound, ?_⟩
    show AnalyticsConfig.mk (trim (sent row).ga4MeasurementId) (trim (sent row).gtmContainerId)
      (trim (sent row).googleTagId) (stripSlashes (trim (sent row).matomoUrl))
      (trim (sent row).matomoSiteId) (trim (sent row).clarityProjectId) = sent row
    rw [trim_off_or_pattern ga4Pattern_visible hsound.ga4,
      trim_off_or_pattern gtmPattern_visible hsound.gtm,
      trim_off_or_pattern googleTagPattern_visible hsound.googleTag, hurl, hstrip, hsite,
      trim_off_or_pattern clarityPattern_visible hsound.clarity]
  · rintro ⟨hsound, htidy⟩
    have hstrip : stripSlashes (sent row).matomoUrl = (sent row).matomoUrl := by
      have hurl : stripSlashes (trim (ofGo row.matomoURL)) = (sent row).matomoUrl :=
        congrArg AnalyticsConfig.matomoUrl htidy
      rw [← hurl, stripSlashes_stripSlashes]
    exact {
      ga4 := (off_or_pattern_sent ga4Pattern_visible).mp hsound.ga4
      gtm := (off_or_pattern_sent gtmPattern_visible).mp hsound.gtm
      googleTag := (off_or_pattern_sent googleTagPattern_visible).mp hsound.googleTag
      matomo := matomo_sent.mpr ⟨hsound.matomo, hstrip⟩
      clarity := (off_or_pattern_sent clarityPattern_visible).mp hsound.clarity }

/-! ## Trackers and fields -/

theorem ofGo_ne_nil_iff {s : GoString} : ofGo s ≠ [] ↔ s ≠ [] := by
  rw [not_iff_not]
  refine ⟨ofGo_eq_nil, ?_⟩
  rintro rfl
  rfl

/-- A provider has a tracker when its field is set. -/
theorem exists_tracker_iff (provider : Provider) :
    (∃ tracker ∈ trackers row, providerOf tracker = provider) ↔ field (sent row) provider ≠ [] := by
  simp only [trackers, List.mem_append, mem_whenSet]
  cases provider <;>
    simp only [field, sent, ofGo_ne_nil_iff, or_and_right, exists_or, exists_and_left,
      providerOf, and_assoc, exists_eq_left, reduceCtorEq, and_false, or_false, false_or, and_true]

/-- A tracker carries the values of its provider. -/
theorem values_of_mem_trackers {tracker : Tracker} (h : tracker ∈ trackers row) :
    values (sent row) (providerOf tracker) = valuesOf tracker := by
  simp only [trackers, List.mem_append, mem_whenSet] at h
  rcases h with (((⟨-, rfl⟩ | ⟨-, rfl⟩) | ⟨-, rfl⟩) | ⟨-, rfl⟩) | ⟨-, rfl⟩ <;> rfl

/-- Something is switched on when a provider's field is set. -/
theorem configured_iff {config : AnalyticsConfig} :
    config.configured ↔ ∃ provider, field config provider ≠ [] := by
  unfold AnalyticsConfig.configured
  rw [Bool.not_eq_true', ← Bool.not_eq_true, ← not_iff_not, not_not, not_exists]
  simp only [Bool.and_eq_true, beq_iff_eq, not_not]
  constructor
  · rintro ⟨⟨⟨⟨hga4, hgtm⟩, htag⟩, hurl⟩, hclarity⟩ provider
    cases provider with
    | ga4 => exact hga4
    | gtm => exact hgtm
    | googleTag => exact htag
    | matomo => exact hurl
    | clarity => exact hclarity
  · intro h
    exact ⟨⟨⟨⟨h .ga4, h .gtm⟩, h .googleTag⟩, h .matomo⟩, h .clarity⟩

/-- The server writes a tracker for a provider whose field is set, when the row is sound and
tidy. -/
theorem server_writes_iff {u : Unicode} (provider : Provider) :
    (∃ tracker ∈ emitted u row, providerOf tracker = provider) ↔
      (sent row).Sound ∧ tidied row = sent row ∧ field (sent row) provider ≠ [] := by
  rw [← exists_tracker_iff, ← and_assoc, ← renderable_iff]
  constructor
  · rintro ⟨tracker, hmem, hprovider⟩
    obtain ⟨hrender, htracker⟩ := mem_emitted.mp hmem
    exact ⟨hrender, tracker, htracker, hprovider⟩
  · rintro ⟨hrender, tracker, htracker, hprovider⟩
    exact ⟨tracker, mem_emitted.mpr ⟨hrender, htracker⟩, hprovider⟩

/-- The console accepts a row with a provider's field set, when the tidied row is sound and its
address not too long. -/
theorem console_accepts_iff (provider : Provider) :
    (∃ config, parseAnalyticsConfig (some (payloadOf row)) = some config ∧
      field config provider ≠ []) ↔
      (tidied row).Sound ∧ (tidied row).matomoUrl.length ≤ maxUrlLength ∧
        field (tidied row) provider ≠ [] := by
  constructor
  · rintro ⟨config, hparse, hfield⟩
    obtain ⟨rfl, hsound, hlength, -⟩ := parseAnalyticsConfig_eq_some.mp hparse
    exact ⟨hsound, hlength, hfield⟩
  · rintro ⟨hsound, hlength, hfield⟩
    refine ⟨tidied row, parseAnalyticsConfig_eq_some.mpr ⟨rfl, hsound, hlength, ?_⟩, hfield⟩
    exact configured_iff.mpr ⟨provider, hfield⟩

/-! ## Agreement -/

/-- Whatever both sides render has the same values. -/
theorem values_eq {u : Unicode} {tracker : Tracker} (hmem : tracker ∈ emitted u row)
    {config : AnalyticsConfig} (hparse : parseAnalyticsConfig (some (payloadOf row)) = some config) :
    values config (providerOf tracker) = valuesOf tracker := by
  obtain ⟨hrender, htracker⟩ := mem_emitted.mp hmem
  obtain ⟨rfl, -⟩ := parseAnalyticsConfig_eq_some.mp hparse
  rw [readPayload_payloadOf, (renderable_iff.mp hrender).2]
  exact values_of_mem_trackers htracker

/-- The two sides agree on a row exactly when its tidied fields are no configuration at all, or
it is tidy just in case its base URL is short enough for the console. -/
theorem boundaries_agree_iff (u : Unicode) (row : AnalyticsSettings) :
    Agree u row ↔
      ¬((tidied row).Sound ∧ (tidied row).configured) ∨
        (tidied row = sent row ↔ (tidied row).matomoUrl.length ≤ maxUrlLength) := by
  constructor
  · intro hagree
    by_cases hconfig : (tidied row).Sound ∧ (tidied row).configured
    · refine Or.inr ?_
      obtain ⟨hsound, hconfigured⟩ := hconfig
      obtain ⟨provider, hfield⟩ := configured_iff.mp hconfigured
      have hboth := (hagree provider).1
      rw [server_writes_iff, console_accepts_iff] at hboth
      constructor
      · intro htidy
        rw [htidy] at hsound hfield
        exact (hboth.mp ⟨hsound, htidy, hfield⟩).2.1
      · intro hlength
        exact (hboth.mpr ⟨hsound, hlength, hfield⟩).2.1
    · exact Or.inl hconfig
  · intro h provider
    refine ⟨?_, fun tracker hmem hprovider config hparse => ?_⟩
    · rw [server_writes_iff, console_accepts_iff]
      constructor
      · rintro ⟨hsound, htidy, hfield⟩
        rw [htidy] at h ⊢
        have hshort := h.resolve_left (not_not.mpr ⟨hsound, configured_iff.mpr ⟨provider, hfield⟩⟩)
        exact ⟨hsound, hshort.mp rfl, hfield⟩
      · rintro ⟨hsound, hlength, hfield⟩
        have htidy := (h.resolve_left
          (not_not.mpr ⟨hsound, configured_iff.mpr ⟨provider, hfield⟩⟩)).mpr hlength
        rw [htidy] at hsound hfield
        exact ⟨hsound, htidy, hfield⟩
    · rw [← hprovider]
      exact values_eq hmem hparse

end

/-- A measurement id with a space before it. -/
def spacedRow : AnalyticsSettings where
  ga4MeasurementID := lit " G-ABCD1234"

/-- The console renders the tracker of that row and the server does not. -/
theorem spaced_row_differs : ¬ Agree Unicode.ascii spacedRow := by
  intro h
  have hconsole : ∃ config, parseAnalyticsConfig (some (payloadOf spacedRow)) = some config ∧
      field config .ga4 ≠ [] := ⟨tidied spacedRow, by decide, by decide⟩
  obtain ⟨tracker, hmem, -⟩ := (h .ga4).1.mpr hconsole
  have hnone : emitted Unicode.ascii spacedRow = [] := by decide
  rw [hnone] at hmem
  exact absurd hmem List.not_mem_nil

end Purels.Properties
