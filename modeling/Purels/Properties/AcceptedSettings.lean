import Purels.Properties.RenderBoundary
import Purels.Service.AnalyticsCalls

/-!
# What the console may save

The tracking settings that `Update` accepts are those that the pages carry.

* `Idempotent`: a normalizer leaves alone what it has returned.
* `renderable_of_normalize`: an accepted configuration passes the check of the pages.
* `trackers_eq`: the trackers of a configuration are those of the providers whose field is set.
* `row_renderable_run`: the row may be rendered in every run of the calls.
* `accepted_settings_rendered`: what an accepted update stores, and the elements it has.
-/

namespace Purels.Properties

open Go Service Store Http Lib

/-! ## Normalizers -/

/-- What a normalizer returns, it leaves alone. -/
def Idempotent (normalize : GoString → Except ServiceError GoString) : Prop :=
  ∀ raw s, normalize raw = .ok s → normalize s = .ok s

/-- So does the one of the two Matomo values. -/
def IdempotentPair
    (normalize : GoString → GoString → Except ServiceError (GoString × GoString)) : Prop :=
  ∀ rawURL rawSiteID url siteID,
    normalize rawURL rawSiteID = .ok (url, siteID) → normalize url siteID = .ok (url, siteID)

section

variable {raw s : GoString}

/-- A single-field normalizer returns nothing, or a value of the format. -/
theorem normalizeID_ok {foldCase : GoString → GoString} {pattern : List Nat → Bool}
    {message : String} (h : normalizeID foldCase pattern message raw = .ok s) :
    s = [] ∨ pattern (runeCodes s) := by
  unfold normalizeID at h
  dsimp only at h
  split at h
  · left
    exact (Except.ok.inj h).symm
  · split at h
    · cases h
    · rename_i hmatch
      right
      rw [Except.ok.inj h, Bool.not_eq_true, Bool.not_eq_false'] at hmatch
      exact hmatch

variable (u : Unicode)

theorem idempotent_ga4 : Idempotent (normalizeGA4MeasurementID u) := by
  intro raw s h
  exact (normalizeGA4MeasurementID_stored u).mpr (normalizeID_ok h)

theorem idempotent_gtm : Idempotent (normalizeGTMContainerID u) := by
  intro raw s h
  exact (normalizeGTMContainerID_stored u).mpr (normalizeID_ok h)

theorem idempotent_googleTag : Idempotent (normalizeGoogleTagID u) := by
  intro raw s h
  exact (normalizeGoogleTagID_stored u).mpr (normalizeID_ok h)

theorem idempotent_clarity : Idempotent (normalizeClarityProjectID u) := by
  intro raw s h
  exact (normalizeClarityProjectID_stored u).mpr (normalizeID_ok h)

theorem idempotent_siteID : Idempotent normalizeMatomoSiteID := by
  intro raw s h
  exact normalizeMatomoSiteID_stored.mpr (normalizeID_ok h)

/-- The base URL: its scheme is folded, and its slashes at the end are gone. -/
theorem idempotent_matomoURL : Idempotent (normalizeMatomoURL u) := by
  intro raw s h
  rcases normalizeMatomoURL_ok u h with rfl | ⟨hmatch, htrim⟩
  · rfl
  · exact normalizeMatomoURL_self u hmatch htrim

/-- The pair: both values of their formats, or both off. -/
theorem normalizeMatomo_ok {rawURL rawSiteID url siteID : GoString}
    (h : normalizeMatomo u rawURL rawSiteID = .ok (url, siteID)) :
    url = [] ∧ siteID = [] ∨
      analyticsMatomoPattern (runeCodes url) ∧ trimRightByte 0x2F url = url ∧
        analyticsSitePattern (runeCodes siteID) := by
  unfold normalizeMatomo at h
  obtain ⟨base, hbase, h⟩ := bind_eq_ok.mp h
  split at h
  · left
    rw [Except.ok.injEq, Prod.mk.injEq] at h
    exact ⟨h.1.symm, h.2.symm⟩
  · rename_i hne
    obtain ⟨site, hsite, h⟩ := bind_eq_ok.mp h
    split at h
    · cases h
    · rename_i hsiteID
      rw [Except.ok.injEq, Prod.mk.injEq] at h
      rw [← h.1, ← h.2]
      have hurl := (normalizeMatomoURL_ok u hbase).resolve_left hne
      exact Or.inr ⟨hurl.1, hurl.2, (normalizeID_ok hsite).resolve_left hsiteID⟩

theorem idempotent_matomo : IdempotentPair (normalizeMatomo u) := by
  intro rawURL rawSiteID url siteID h
  exact (normalizeMatomo_stored u).mpr (normalizeMatomo_ok u h)

/-- What `Update` makes of its input may be rendered. -/
theorem renderable_of_normalize {input settings : AnalyticsSettings}
    (h : Normalize u input = .ok settings) : Renderable settings := by
  unfold Normalize at h
  obtain ⟨ga4, hga4, h⟩ := bind_eq_ok.mp h
  obtain ⟨gtm, hgtm, h⟩ := bind_eq_ok.mp h
  obtain ⟨googleTag, htag, h⟩ := bind_eq_ok.mp h
  obtain ⟨⟨url, siteID⟩, hmatomo, h⟩ := bind_eq_ok.mp h
  obtain ⟨clarity, hclarity, h⟩ := bind_eq_ok.mp h
  rw [← Except.ok.inj h]
  exact {
    ga4 := normalizeID_ok hga4
    gtm := normalizeID_ok hgtm
    googleTag := normalizeID_ok htag
    matomo := normalizeMatomo_ok u hmatomo
    clarity := normalizeID_ok hclarity }

end

/-! ## Providers -/

/-- All providers, in the order of their elements. -/
def providers : List Provider := [.ga4, .gtm, .googleTag, .matomo, .clarity]

/-- The field that switches a provider on. -/
def providerField (settings : AnalyticsSettings) : Provider → GoString
  | .ga4 => settings.ga4MeasurementID
  | .gtm => settings.gtmContainerID
  | .googleTag => settings.googleTagID
  | .matomo => settings.matomoURL
  | .clarity => settings.clarityProjectID

/-- The tracker of a provider. -/
def providerTracker (settings : AnalyticsSettings) : Provider → Tracker
  | .ga4 => .ga4 settings.ga4MeasurementID
  | .gtm => .gtm settings.gtmContainerID
  | .googleTag => .googleTag settings.googleTagID
  | .matomo => .matomo settings.matomoURL settings.matomoSiteID
  | .clarity => .clarity settings.clarityProjectID

/-- The providers that a configuration switches on. -/
def enabled (settings : AnalyticsSettings) : List Provider :=
  providers.filter fun provider => providerField settings provider != []

theorem trackers_eq (settings : AnalyticsSettings) :
    trackers settings = (enabled settings).map (providerTracker settings) := by
  have hwhen : ∀ provider, whenSet (providerField settings provider)
      (providerTracker settings provider) =
      ([provider].filter fun p => providerField settings p != []).map
        (providerTracker settings) := by
    intro provider
    by_cases hempty : providerField settings provider = []
    · simp [whenSet, hempty]
    · simp [whenSet, hempty]
  have hga4 := hwhen .ga4
  have hgtm := hwhen .gtm
  have htag := hwhen .googleTag
  have hmatomo := hwhen .matomo
  have hclarity := hwhen .clarity
  simp only [providerField, providerTracker] at hga4 hgtm htag hmatomo hclarity
  rw [trackers, hga4, hgtm, htag, hmatomo, hclarity]
  simp only [← List.map_append, ← List.filter_append]
  rfl

/-- The elements of a configuration that may be rendered. -/
theorem trackerScripts_of_renderable {u : Unicode} {settings : AnalyticsSettings}
    (h : Renderable settings) :
    trackerScripts u settings =
      (enabled settings).flatMap fun provider => (providerTracker settings provider).element := by
  have hemitted : emitted u settings = trackers settings := by
    unfold emitted
    rw [(ValidateAnalyticsSettings_iff u).mpr h]
  show (emitted u settings).flatMap Tracker.element = _
  rw [hemitted, trackers_eq, List.flatMap_map]

/-! ## The row -/

/-- What a row holds of a configuration is read back as it was. -/
theorem toStored_updatedAnalytics (settings : AnalyticsSettings) (now : Instant) :
    (updatedAnalytics settings now).toStored = ⟨settings, now⟩ := by
  have hread : ∀ value : GoString, (nullableText value).getD [] = value := by
    intro value
    by_cases hempty : value = []
    · rw [nullableText, if_pos hempty, hempty]
      rfl
    · rw [nullableText, if_neg hempty]
      rfl
  simp only [updatedAnalytics, AnalyticsRow.toStored, hread]

section

variable {u : Unicode} {w w' : AnalyticsWorld} {now : Instant}

/-- An update that is accepted has stored what the normalizers made of its input. -/
theorem update_accepted {input : AnalyticsSettings} {committed : ℕ}
    (h : nextAnalyticsStep u w (.start (.update input)) now = some (w', .reread committed)) :
    ∃ settings, Normalize u input = .ok settings ∧
      w'.row = some (updatedAnalytics settings now) := by
  unfold nextAnalyticsStep at h
  dsimp only at h
  split at h
  · cases h
  · rename_i settings hnormal
    refine ⟨settings, hnormal, ?_⟩
    split at h
    · cases h
    · rename_i row hupdate
      have hrow : row = updatedAnalytics settings now := by
        unfold UpdateAnalyticsSettings at hupdate
        split at hupdate
        · cases hupdate
        · split at hupdate
          · cases hupdate
          · exact (Except.ok.inj hupdate).symm
      rw [Option.some.injEq, Prod.mk.injEq] at h
      rw [← h.1, ← hrow]
      rfl

/-- The pages may carry what the row holds. -/
def RowRenderable (w : AnalyticsWorld) : Prop :=
  ∀ row, w.row = some row → Renderable row.toStored.settings

/-- One step of a call keeps the row so. -/
theorem row_renderable_step {call call' : AnalyticsCall}
    (h : nextAnalyticsStep u w call now = some (w', call')) (hw : RowRenderable w) :
    RowRenderable w' := by
  cases call with
  | idle => cases h
  | done result committed => cases h
  | reread committed =>
    cases h
    exact hw
  | publish settings seen committed =>
    cases h
    exact hw
  | start request =>
    cases request with
    | get =>
      cases h
      exact hw
    | refresh =>
      cases h
      exact hw
    | update input =>
      cases call' with
      | reread committed =>
        obtain ⟨settings, hnormal, hrow⟩ := update_accepted h
        intro row heq
        rw [hrow, Option.some.injEq] at heq
        rw [← heq, toStored_updatedAnalytics]
        exact renderable_of_normalize u hnormal
      | _ =>
        -- every other outcome of an update has written nothing
        have hsame : w = w' := by
          unfold nextAnalyticsStep at h
          dsimp only at h
          split at h
          · simp only [Option.some.injEq, Prod.mk.injEq] at h
            exact h.1
          · split at h
            · simp only [Option.some.injEq, Prod.mk.injEq] at h
              exact h.1
            · simp only [Option.some.injEq, Prod.mk.injEq, reduceCtorEq, and_false] at h
        rw [← hsame]
        exact hw

/-- So does every run of the calls. -/
theorem row_renderable_run {s t : Pool AnalyticsWorld AnalyticsCall} {as : List (ℕ × Instant)}
    (hrun : (analyticsCalls u).machine.run s as = some t) (hs : RowRenderable s.shared) :
    RowRenderable t.shared := by
  refine (analyticsCalls u).machine.run_invariant (I := fun s => RowRenderable s.shared) ?_ hs hrun
  intro s ⟨i, now⟩ t hshared hstep
  obtain ⟨call, hnext, -, -⟩ := Process.step_cases hstep
  exact row_renderable_step hnext hshared

end

/-! ## Updates -/

/-- No normalizer changes what it has returned. -/
structure NormalizersIdempotent (u : Unicode) : Prop where
  ga4 : Idempotent (normalizeGA4MeasurementID u)
  gtm : Idempotent (normalizeGTMContainerID u)
  googleTag : Idempotent (normalizeGoogleTagID u)
  matomoURL : Idempotent (normalizeMatomoURL u)
  matomoSiteID : Idempotent normalizeMatomoSiteID
  matomo : IdempotentPair (normalizeMatomo u)
  clarity : Idempotent (normalizeClarityProjectID u)

/-- The row that an accepted update stores holds what the normalizers made of the input, passes
the check of the pages, and has an element for each provider whose field is set. -/
theorem accepted_settings_rendered (u : Unicode) {w w' : AnalyticsWorld}
    {input : AnalyticsSettings} {now : Instant} {committed : ℕ}
    (h : nextAnalyticsStep u w (.start (.update input)) now = some (w', .reread committed)) :
    NormalizersIdempotent u ∧
      ∃ row settings, w'.row = some row ∧ row.toStored = ⟨settings, now⟩ ∧
        Normalize u input = .ok settings ∧ ValidateAnalyticsSettings u settings = .ok () ∧
        trackerScripts u settings =
          (enabled settings).flatMap fun provider =>
            (providerTracker settings provider).element := by
  obtain ⟨settings, hnormal, hrow⟩ := update_accepted h
  have hrenderable := renderable_of_normalize u hnormal
  have hidempotent : NormalizersIdempotent u := {
    ga4 := idempotent_ga4 u
    gtm := idempotent_gtm u
    googleTag := idempotent_googleTag u
    matomoURL := idempotent_matomoURL u
    matomoSiteID := idempotent_siteID
    matomo := idempotent_matomo u
    clarity := idempotent_clarity u }
  refine ⟨hidempotent, updatedAnalytics settings now, settings, hrow, ?_, hnormal, ?_, ?_⟩
  · exact toStored_updatedAnalytics settings now
  · exact (ValidateAnalyticsSettings_iff u).mpr hrenderable
  · exact trackerScripts_of_renderable hrenderable

/-- A form whose values need folding, and whose base URL ends in slashes. -/
def untidyForm : AnalyticsSettings where
  ga4MeasurementID := lit " g-abcd1234 "
  matomoURL := lit "HTTPS://stats.example.com//"
  matomoSiteID := lit "7"

/-- The same values, as they are stored. -/
def tidyForm : AnalyticsSettings where
  ga4MeasurementID := lit "G-ABCD1234"
  matomoURL := lit "https://stats.example.com"
  matomoSiteID := lit "7"

/-- The row of that form has the elements of two providers. -/
theorem untidyForm_rendered :
    NormalizersIdempotent Unicode.ascii ∧
      ∃ row settings, some (updatedAnalytics tidyForm 5) = some row ∧
        row.toStored = ⟨settings, 5⟩ ∧
        Normalize Unicode.ascii untidyForm = .ok settings ∧
        ValidateAnalyticsSettings Unicode.ascii settings = .ok () ∧
        trackerScripts Unicode.ascii settings =
          (enabled settings).flatMap fun provider =>
            (providerTracker settings provider).element := by
  have hstep : nextAnalyticsStep Unicode.ascii ⟨some {}, none, []⟩
      (.start (.update untidyForm)) 5 =
      some (⟨some (updatedAnalytics tidyForm 5), none, [⟨tidyForm, 5⟩]⟩, .reread 0) := by
    rfl
  exact accepted_settings_rendered Unicode.ascii hstep

example : enabled tidyForm = [.ga4, .matomo] := by decide

end Purels.Properties
