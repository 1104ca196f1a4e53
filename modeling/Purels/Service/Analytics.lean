import Purels.Domain.Models
import Purels.Lib.Patterns
import Purels.Lib.Results

/-!
# Tracking settings

The ids that every page carries a tracker for, as `AnalyticsService` checks them.

* The patterns, and `normalizeID`, which the five single-field normalizers are.
* `normalizeMatomo`: the base URL and the site id, as a pair.
* `Normalize`: what `Update` stores.
* `ValidateAnalyticsSettings`: the check before anything is rendered, and
  `ValidateAnalyticsSettings_iff`, which says what passes it.
-/

namespace Purels.Service

open Go Lib

/-- `domain.AnalyticsSettings`, without the time of the last edit. -/
structure AnalyticsSettings where
  ga4MeasurementID : GoString := []
  gtmContainerID : GoString := []
  googleTagID : GoString := []
  matomoURL : GoString := []
  matomoSiteID : GoString := []
  clarityProjectID : GoString := []
  deriving DecidableEq

/-! ## The accepted formats -/

/-- `[A-Z0-9]`. -/
def isIDCode (c : Nat) : Bool := isUpperCode c || isDigitCode c

/-- Letters, digits and what else a path may be made of. -/
def isPathCode (c : Nat) : Bool :=
  isAlnumCode c || (lit "._~!$&()*+,;=:@%-/").any fun b => c == b.toNat

/-- `^G-[A-Z0-9]{4,20}$`. -/
def analyticsGA4Pattern (s : List Nat) : Bool := headed [0x47, 0x2D] isIDCode 4 20 s

/-- `^GTM-[A-Z0-9]{4,12}$`. -/
def analyticsGTMPattern (s : List Nat) : Bool := headed [0x47, 0x54, 0x4D, 0x2D] isIDCode 4 12 s

/-- `^GT-[A-Z0-9]{4,20}$`. -/
def analyticsGoogleTagPattern (s : List Nat) : Bool := headed [0x47, 0x54, 0x2D] isIDCode 4 20 s

/-- The base URL of a Matomo. -/
def analyticsMatomoPattern (s : List Nat) : Bool := baseURL isPathCode s

/-- `^[1-9][0-9]{0,9}$`. -/
def analyticsSitePattern (s : List Nat) : Bool :=
  headed [] isDigitCode 1 10 s && s.head?.any fun c => c != 0x30

/-- `^[a-z0-9]{6,20}$`. -/
def analyticsClarityPattern (s : List Nat) : Bool :=
  headed [] (fun c => isLowerCode c || isDigitCode c) 6 20 s

/-- A refusal wraps `ErrAnalyticsInvalid`. -/
def invalidAnalytics (message : String) : ServiceError :=
  .invalid ("invalid analytics settings: " ++ message)

/-! ## Normalizing -/

section

variable (u : Unicode)

/-- A trimmed and folded value that has the format, or nothing for "off". -/
def normalizeID (foldCase : GoString → GoString) (pattern : List Nat → Bool) (message : String)
    (raw : GoString) : Except ServiceError GoString :=
  let trimmed := foldCase (trimSpace raw)
  if trimmed = [] then .ok []
  else if !pattern (runeCodes trimmed) then .error (invalidAnalytics message)
  else .ok trimmed

/-- `normalizeGA4MeasurementID`. -/
def normalizeGA4MeasurementID : GoString → Except ServiceError GoString :=
  normalizeID (toUpper u) analyticsGA4Pattern
    "the GA4 measurement id must look like G-XXXXXXXXXX"

/-- `normalizeGTMContainerID`. -/
def normalizeGTMContainerID : GoString → Except ServiceError GoString :=
  normalizeID (toUpper u) analyticsGTMPattern "the GTM container id must look like GTM-XXXXXXX"

/-- `normalizeGoogleTagID`. -/
def normalizeGoogleTagID : GoString → Except ServiceError GoString :=
  normalizeID (toUpper u) analyticsGoogleTagPattern
    "the Google tag id must look like GT-XXXXXXXXXX"

/-- `normalizeMatomoSiteID`, which folds nothing. -/
def normalizeMatomoSiteID : GoString → Except ServiceError GoString :=
  normalizeID id analyticsSitePattern "the Matomo site id must be a positive integer"

/-- `normalizeClarityProjectID`. -/
def normalizeClarityProjectID : GoString → Except ServiceError GoString :=
  normalizeID (toLower u) analyticsClarityPattern
    "the Clarity project id is a short lower-case token such as ymutupw1dp"

/-- The scheme in lower case, the rest as typed. -/
def foldScheme (s : GoString) : GoString :=
  match index (lit "://") s with
  | some idx => if 0 < idx then toLower u (s.take idx) ++ s.drop idx else s
  | none => s

/-- `normalizeMatomoURL`. -/
def normalizeMatomoURL (raw : GoString) : Except ServiceError GoString :=
  let trimmed := trimSpace raw
  if trimmed = [] then .ok []
  else
    let trimmed := trimRightByte 0x2F (foldScheme u trimmed)
    if !analyticsMatomoPattern (runeCodes trimmed) then
      .error (invalidAnalytics "the Matomo URL must be an absolute http(s) address without credentials, a query string or a fragment")
    else .ok trimmed

/-- `normalizeMatomo`: without a URL the site id is dropped, a URL needs one. -/
def normalizeMatomo (rawURL rawSiteID : GoString) : Except ServiceError (GoString × GoString) := do
  let base ← normalizeMatomoURL u rawURL
  if base = [] then .ok ([], [])
  else
    let siteID ← normalizeMatomoSiteID rawSiteID
    if siteID = [] then .error (invalidAnalytics "a Matomo URL needs a site id")
    else .ok (base, siteID)

/-- What `Update` makes of its input before it is stored. -/
def Normalize (input : AnalyticsSettings) : Except ServiceError AnalyticsSettings := do
  let ga4 ← normalizeGA4MeasurementID u input.ga4MeasurementID
  let gtm ← normalizeGTMContainerID u input.gtmContainerID
  let googleTag ← normalizeGoogleTagID u input.googleTagID
  let (matomoURL, siteID) ← normalizeMatomo u input.matomoURL input.matomoSiteID
  let clarity ← normalizeClarityProjectID u input.clarityProjectID
  .ok {
    ga4MeasurementID := ga4
    gtmContainerID := gtm
    googleTagID := googleTag
    matomoURL := matomoURL
    matomoSiteID := siteID
    clarityProjectID := clarity }

/-! ## Checking what is stored -/

/-- One entry of the table: a stored value that normalization leaves alone. -/
def checkStored (field : String) (stored : GoString)
    (normalize : GoString → Except ServiceError GoString) : Except ServiceError Unit := do
  let normalized ← normalize stored
  if normalized ≠ stored then
    .error (invalidAnalytics ("the stored " ++ field ++ " is not in its normalized form"))
  else .ok ()

/-- `ValidateAnalyticsSettings`. -/
def ValidateAnalyticsSettings (settings : AnalyticsSettings) : Except ServiceError Unit := do
  checkStored "ga4_measurement_id" settings.ga4MeasurementID (normalizeGA4MeasurementID u)
  checkStored "gtm_container_id" settings.gtmContainerID (normalizeGTMContainerID u)
  checkStored "google_tag_id" settings.googleTagID (normalizeGoogleTagID u)
  checkStored "clarity_project_id" settings.clarityProjectID (normalizeClarityProjectID u)
  let (matomoURL, siteID) ← normalizeMatomo u settings.matomoURL settings.matomoSiteID
  if matomoURL ≠ settings.matomoURL ∨ siteID ≠ settings.matomoSiteID then
    .error (invalidAnalytics "the stored Matomo settings are not in their normalized form")
  else .ok ()

end

/-! ## What passes -/

theorem visible_of_isIDCode {c : Nat} (h : isIDCode c) : Visible c := by
  rcases Bool.or_eq_true_iff.mp h with hupper | hdigit
  · exact visible_of_isUpperCode hupper
  · exact visible_of_isDigitCode hdigit

theorem visible_of_isPathCode {c : Nat} (h : isPathCode c) : Visible c := by
  rcases Bool.or_eq_true_iff.mp h with halnum | hmark
  · exact visible_of_isAlnumCode halnum
  · obtain ⟨b, hb, hcode⟩ := List.any_eq_true.mp hmark
    have hmarks : ∀ b ∈ lit "._~!$&()*+,;=:@%-/", 0x21 ≤ b.toNat ∧ b.toNat ≤ 0x7E := by
      decide +kernel
    rw [beq_iff_eq.mp hcode]
    exact hmarks b hb

/-- An upper-case id is visible, and upper-casing leaves it alone. -/
theorem upper_of_isIDCode {c : Nat} (h : isIDCode c) : Visible c ∧ asciiUpper c = c := by
  refine ⟨visible_of_isIDCode h, ?_⟩
  simp only [isIDCode, isUpperCode, isDigitCode, Bool.or_eq_true, decide_eq_true_eq] at h
  unfold asciiUpper
  rw [if_neg (by omega)]

theorem analyticsGA4Pattern_upper {s : List Nat} (h : analyticsGA4Pattern s) :
    ∀ c ∈ s, Visible c ∧ asciiUpper c = c :=
  headed_forall h (by decide) fun _ => upper_of_isIDCode

theorem analyticsGTMPattern_upper {s : List Nat} (h : analyticsGTMPattern s) :
    ∀ c ∈ s, Visible c ∧ asciiUpper c = c :=
  headed_forall h (by decide) fun _ => upper_of_isIDCode

theorem analyticsGoogleTagPattern_upper {s : List Nat} (h : analyticsGoogleTagPattern s) :
    ∀ c ∈ s, Visible c ∧ asciiUpper c = c :=
  headed_forall h (by decide) fun _ => upper_of_isIDCode

theorem analyticsClarityPattern_lower {s : List Nat} (h : analyticsClarityPattern s) :
    ∀ c ∈ s, Visible c ∧ asciiLower c = c := by
  refine headed_forall h (List.forall_mem_nil _) fun c hc => ?_
  simp only [isLowerCode, isDigitCode, Bool.or_eq_true, decide_eq_true_eq] at hc
  refine ⟨⟨by omega, by omega⟩, ?_⟩
  unfold asciiLower
  rw [if_neg (by omega)]

theorem analyticsSitePattern_visible {s : List Nat} (h : analyticsSitePattern s) :
    ∀ c ∈ s, Visible c :=
  headed_forall (Bool.and_eq_true_iff.mp h).1 (List.forall_mem_nil _) fun _ => visible_of_isDigitCode

theorem analyticsMatomoPattern_visible {s : List Nat} (h : analyticsMatomoPattern s) :
    ∀ c ∈ s, Visible c :=
  baseURL_forall (fun _ => visible_of_isPathCode) h

theorem analyticsSitePattern_ne_nil {s : List Nat} (h : analyticsSitePattern s) : s ≠ [] := by
  rintro rfl
  exact Bool.false_ne_true h

/-- Visible text has nothing to trim. -/
theorem trimSpace_visible {s : GoString} (h : ∀ c ∈ runeCodes s, Visible c) : trimSpace s = s := by
  apply trimSpace_of_not_space
  intro c hc
  obtain ⟨hlow, hhigh⟩ := h c hc
  simp only [Go.isSpace, Bool.or_eq_false_iff, Bool.and_eq_false_iff, decide_eq_false_iff_not,
    beq_eq_false_iff_ne]
  omega

section

variable (u : Unicode) {s : GoString}

/-- A case mapping that moves no character of a visible text. -/
theorem map_ofNat_eq_self {f : Nat → Nat} (h : ∀ c ∈ runeCodes s, Visible c ∧ f c = c) :
    (∀ b ∈ s, b.toNat < 0x80) ∧ (s.map fun b => UInt8.ofNat (f b.toNat)) = s := by
  obtain ⟨hascii, hcodes⟩ := ascii_of_runeCodes fun c hc => by
    have := (h c hc).1.2
    show c < 0x80
    omega
  refine ⟨hascii, ?_⟩
  rw [hcodes] at h
  calc (s.map fun b => UInt8.ofNat (f b.toNat)) = s.map id := by
        apply List.map_congr_left
        intro b hb
        rw [(h b.toNat (List.mem_map_of_mem hb)).2, UInt8.ofNat_toNat]
        rfl
    _ = s := List.map_id s

theorem toUpper_eq_self (h : ∀ c ∈ runeCodes s, Visible c ∧ asciiUpper c = c) :
    toUpper u s = s := by
  obtain ⟨hascii, hmap⟩ := map_ofNat_eq_self h
  rw [toUpper_ascii u hascii, hmap]

theorem toLower_eq_self (h : ∀ c ∈ runeCodes s, Visible c ∧ asciiLower c = c) :
    toLower u s = s := by
  obtain ⟨hascii, hmap⟩ := map_ofNat_eq_self h
  rw [toLower_ascii u hascii, hmap]

/-- What a single-field normalizer leaves alone: nothing, or a value of the format. -/
theorem normalizeID_stored {foldCase : GoString → GoString} {pattern : List Nat → Bool}
    {message : String} (hfold : foldCase [] = [])
    (hpattern : pattern (runeCodes s) → (∀ c ∈ runeCodes s, Visible c) ∧ foldCase s = s) :
    normalizeID foldCase pattern message s = .ok s ↔ s = [] ∨ pattern (runeCodes s) := by
  unfold normalizeID
  constructor
  · intro h
    dsimp only at h
    split at h
    · exact Or.inl (Except.ok.inj h).symm
    · split at h
      · cases h
      · rename_i hmatch
        rw [Except.ok.inj h, Bool.not_eq_true, Bool.not_eq_false'] at hmatch
        exact Or.inr hmatch
  · rintro (rfl | hmatch)
    · have hempty : foldCase (trimSpace []) = [] := hfold
      dsimp only
      rw [if_pos hempty]
    · obtain ⟨hvisible, hself⟩ := hpattern hmatch
      have htrim : foldCase (trimSpace s) = s := by rw [trimSpace_visible hvisible, hself]
      dsimp only
      rw [htrim, hmatch]
      split
      · rename_i hnil
        rw [hnil]
      · rfl

theorem normalizeGA4MeasurementID_stored :
    normalizeGA4MeasurementID u s = .ok s ↔ s = [] ∨ analyticsGA4Pattern (runeCodes s) :=
  normalizeID_stored rfl fun h =>
    have hupper := analyticsGA4Pattern_upper h
    ⟨fun c hc => (hupper c hc).1, toUpper_eq_self u hupper⟩

theorem normalizeGTMContainerID_stored :
    normalizeGTMContainerID u s = .ok s ↔ s = [] ∨ analyticsGTMPattern (runeCodes s) :=
  normalizeID_stored rfl fun h =>
    have hupper := analyticsGTMPattern_upper h
    ⟨fun c hc => (hupper c hc).1, toUpper_eq_self u hupper⟩

theorem normalizeGoogleTagID_stored :
    normalizeGoogleTagID u s = .ok s ↔ s = [] ∨ analyticsGoogleTagPattern (runeCodes s) :=
  normalizeID_stored rfl fun h =>
    have hupper := analyticsGoogleTagPattern_upper h
    ⟨fun c hc => (hupper c hc).1, toUpper_eq_self u hupper⟩

theorem normalizeClarityProjectID_stored :
    normalizeClarityProjectID u s = .ok s ↔ s = [] ∨ analyticsClarityPattern (runeCodes s) :=
  normalizeID_stored rfl fun h =>
    have hlower := analyticsClarityPattern_lower h
    ⟨fun c hc => (hlower c hc).1, toLower_eq_self u hlower⟩

theorem normalizeMatomoSiteID_stored :
    normalizeMatomoSiteID s = .ok s ↔ s = [] ∨ analyticsSitePattern (runeCodes s) :=
  normalizeID_stored rfl fun h => ⟨analyticsSitePattern_visible h, rfl⟩

/-- Bytes that are the codes of a text and more begin with the text. -/
theorem eq_append_of_codes {t : GoString} {rest : List Nat}
    (h : s.map UInt8.toNat = t.map UInt8.toNat ++ rest) : ∃ tail, s = t ++ tail := by
  obtain ⟨before, tail, rfl, hbefore, -⟩ := List.map_eq_append_iff.mp h
  refine ⟨tail, ?_⟩
  rw [List.map_injective_iff.mpr (fun _ _ => UInt8.toNat_inj.mp) hbefore]

/-- A base URL has its scheme in lower case already. -/
theorem foldScheme_eq_self (h : analyticsMatomoPattern (runeCodes s)) : foldScheme u s = s := by
  obtain ⟨-, hcodes⟩ := ascii_of_runeCodes fun c hc => by
    have := (analyticsMatomoPattern_visible h c hc).2
    show c < 0x80
    omega
  obtain ⟨rest, hscheme⟩ := baseURL_scheme h
  rw [hcodes] at hscheme
  rcases hscheme with hscheme | hscheme
  · obtain ⟨tail, rfl⟩ := eq_append_of_codes (t := lit "https://") hscheme
    have hindex : index (lit "://") (lit "https://" ++ tail) = some 5 := rfl
    have hlower : toLower u (lit "https") = lit "https" := by
      rw [toLower_ascii u (by decide +kernel)]
      decide
    unfold foldScheme
    rw [hindex]
    show toLower u (lit "https") ++ _ = _
    rw [hlower]
    rfl
  · obtain ⟨tail, rfl⟩ := eq_append_of_codes (t := lit "http://") hscheme
    have hindex : index (lit "://") (lit "http://" ++ tail) = some 4 := rfl
    have hlower : toLower u (lit "http") = lit "http" := by
      rw [toLower_ascii u (by decide +kernel)]
      decide
    unfold foldScheme
    rw [hindex]
    show toLower u (lit "http") ++ _ = _
    rw [hlower]
    rfl

/-- What `normalizeMatomoURL` returns: nothing, or an address of the format without a slash
at its end. -/
theorem normalizeMatomoURL_ok {raw : GoString} (h : normalizeMatomoURL u raw = .ok s) :
    s = [] ∨ analyticsMatomoPattern (runeCodes s) ∧ trimRightByte 0x2F s = s := by
  unfold normalizeMatomoURL at h
  dsimp only at h
  split at h
  · exact Or.inl (Except.ok.inj h).symm
  · split at h
    · cases h
    · rename_i hmatch
      rw [Except.ok.inj h, Bool.not_eq_true, Bool.not_eq_false'] at hmatch
      refine Or.inr ⟨hmatch, ?_⟩
      rw [← Except.ok.inj h]
      exact List.rdropWhile_idempotent _ _

/-- Such a value is left alone. -/
theorem normalizeMatomoURL_self (hmatch : analyticsMatomoPattern (runeCodes s))
    (htrim : trimRightByte 0x2F s = s) : normalizeMatomoURL u s = .ok s := by
  have hspace : trimSpace s = s := trimSpace_visible (analyticsMatomoPattern_visible hmatch)
  unfold normalizeMatomoURL
  dsimp only
  rw [hspace, foldScheme_eq_self u hmatch, htrim, hmatch]
  split
  · rename_i hnil
    rw [hnil]
  · rfl

theorem ne_nil_of_analyticsMatomoPattern (h : analyticsMatomoPattern (runeCodes s)) : s ≠ [] := by
  rintro rfl
  exact Bool.false_ne_true h

/-- What `normalizeMatomo` leaves alone: nothing at all, or a pair of values of their formats. -/
theorem normalizeMatomo_stored {site : GoString} :
    normalizeMatomo u s site = .ok (s, site) ↔
      s = [] ∧ site = [] ∨
        analyticsMatomoPattern (runeCodes s) ∧ trimRightByte 0x2F s = s ∧
          analyticsSitePattern (runeCodes site) := by
  unfold normalizeMatomo
  constructor
  · intro h
    obtain ⟨base, hbase, h⟩ := bind_eq_ok.mp h
    split at h
    · obtain ⟨rfl, rfl⟩ := Prod.mk.inj (Except.ok.inj h)
      exact Or.inl ⟨rfl, rfl⟩
    · rename_i hne
      obtain ⟨siteID, hsite, h⟩ := bind_eq_ok.mp h
      split at h
      · cases h
      · rename_i hsiteID
        obtain ⟨rfl, rfl⟩ := Prod.mk.inj (Except.ok.inj h)
        obtain ⟨hmatch, htrim⟩ := (normalizeMatomoURL_ok u hbase).resolve_left hne
        exact Or.inr ⟨hmatch, htrim, (normalizeMatomoSiteID_stored.mp hsite).resolve_left hsiteID⟩
  · rintro (⟨rfl, rfl⟩ | ⟨hmatch, htrim, hsite⟩)
    · rfl
    · have hsiteID := normalizeMatomoSiteID_stored.mpr (Or.inr hsite)
      have hne : site ≠ [] := by
        rintro rfl
        exact analyticsSitePattern_ne_nil hsite rfl
      rw [normalizeMatomoURL_self u hmatch htrim]
      show (if s = [] then _ else _) = _
      rw [if_neg (ne_nil_of_analyticsMatomoPattern hmatch), hsiteID]
      show (if site = [] then _ else _) = _
      rw [if_neg hne]

/-- An entry of the table passes when normalization leaves the value alone. -/
theorem checkStored_ok {field : String} {normalize : GoString → Except ServiceError GoString} :
    checkStored field s normalize = .ok () ↔ normalize s = .ok s := by
  unfold checkStored
  constructor
  · intro h
    obtain ⟨normalized, hnormalize, h⟩ := bind_eq_ok.mp h
    split at h
    · cases h
    · rename_i heq
      rw [not_not.mp heq] at hnormalize
      exact hnormalize
  · intro h
    rw [h]
    show (if s ≠ s then _ else _) = _
    rw [if_neg (not_not.mpr rfl)]

/-- The configurations that may be rendered: every value is off or of its format, and the two
of Matomo are so together. -/
structure Renderable (settings : AnalyticsSettings) : Prop where
  ga4 : settings.ga4MeasurementID = [] ∨ analyticsGA4Pattern (runeCodes settings.ga4MeasurementID)
  gtm : settings.gtmContainerID = [] ∨ analyticsGTMPattern (runeCodes settings.gtmContainerID)
  googleTag :
    settings.googleTagID = [] ∨ analyticsGoogleTagPattern (runeCodes settings.googleTagID)
  matomo : settings.matomoURL = [] ∧ settings.matomoSiteID = [] ∨
    analyticsMatomoPattern (runeCodes settings.matomoURL) ∧
      trimRightByte 0x2F settings.matomoURL = settings.matomoURL ∧
      analyticsSitePattern (runeCodes settings.matomoSiteID)
  clarity :
    settings.clarityProjectID = [] ∨ analyticsClarityPattern (runeCodes settings.clarityProjectID)

/-- These are what `ValidateAnalyticsSettings` passes. -/
theorem ValidateAnalyticsSettings_iff {settings : AnalyticsSettings} :
    ValidateAnalyticsSettings u settings = .ok () ↔ Renderable settings := by
  unfold ValidateAnalyticsSettings
  constructor
  · intro h
    obtain ⟨⟨⟩, hga4, h⟩ := bind_eq_ok.mp h
    obtain ⟨⟨⟩, hgtm, h⟩ := bind_eq_ok.mp h
    obtain ⟨⟨⟩, htag, h⟩ := bind_eq_ok.mp h
    obtain ⟨⟨⟩, hclarity, h⟩ := bind_eq_ok.mp h
    obtain ⟨⟨base, siteID⟩, hmatomo, h⟩ := bind_eq_ok.mp h
    have hsame : base = settings.matomoURL ∧ siteID = settings.matomoSiteID := by
      dsimp only at h
      split at h
      · cases h
      · rename_i heq
        rw [not_or, not_not, not_not] at heq
        exact heq
    obtain ⟨rfl, rfl⟩ := hsame
    exact {
      ga4 := (normalizeGA4MeasurementID_stored u).mp (checkStored_ok.mp hga4)
      gtm := (normalizeGTMContainerID_stored u).mp (checkStored_ok.mp hgtm)
      googleTag := (normalizeGoogleTagID_stored u).mp (checkStored_ok.mp htag)
      matomo := (normalizeMatomo_stored u).mp hmatomo
      clarity := (normalizeClarityProjectID_stored u).mp (checkStored_ok.mp hclarity) }
  · intro h
    rw [checkStored_ok.mpr ((normalizeGA4MeasurementID_stored u).mpr h.ga4),
      checkStored_ok.mpr ((normalizeGTMContainerID_stored u).mpr h.gtm),
      checkStored_ok.mpr ((normalizeGoogleTagID_stored u).mpr h.googleTag),
      checkStored_ok.mpr ((normalizeClarityProjectID_stored u).mpr h.clarity),
      (normalizeMatomo_stored u).mpr h.matomo]
    show (if _ ≠ _ ∨ _ ≠ _ then _ else _) = _
    rw [if_neg (not_or.mpr ⟨not_not.mpr rfl, not_not.mpr rfl⟩)]

end

end Purels.Service
