import Purels.Domain.RuntimeSettings
import Purels.Go.Url

/-!
# Validating the runtime settings

`NormalizeRuntimeSettings` and the host lists it canonicalizes.

* `normalizeRuntimeHosts`: lower-case bare host names without duplicates.
* `NormalizeRuntimeSettings`: every check of the source, in its order.
* `normalizeRuntimeHosts_idem` and `normalizeRuntimeSettings_idem`: what has been
  normalized normalizes to itself.
-/

namespace Purels.Config

open Go

def maxRuntimeLinks : Int := 1000000
def maxRuntimeRateLimit : Int := 1000000
def maxRuntimeGrace : Int := 10 * 365 * 24 * 3600
def maxRuntimeHealthCheck : Int := 30 * 24 * 3600

/-- What the two settings entry points fail with. -/
inductive SettingsError where
  | aliasMode
  | fallbackURL
  | outOfRange (field : String) (low high : Int)
  | notBare (field : String)
  | invalidHost (field : String) (raw : GoString)
  deriving DecidableEq

section

variable (u : Unicode)

/-- The canonical spelling of one entry. -/
def foldHost (raw : GoString) : GoString := toLower u (trimSpace raw)

/-- A host holds no byte that starts another part of a URL. -/
def bareHost (host : GoString) : Bool := !containsAny host (lit "/:@ \t\r\n")

/-- `url.Parse` reads the entry as a host name and nothing else. -/
def validHost (host : GoString) : Bool :=
  match Url.parse u (0x2F :: 0x2F :: host) with
  | none => false
  | some parsed => parsed.hostname != [] && parsed.port == [] && parsed.hostname == host

/-- The loop of `normalizeRuntimeHosts`; `result` holds what has been kept. -/
def normalizeHostsFrom (field : String) (result : List GoString) :
    List GoString → Except SettingsError (List GoString)
  | [] => .ok result
  | raw :: values =>
    let host := foldHost u raw
    if host = [] then normalizeHostsFrom field result values
    else if !bareHost host then .error (.notBare field)
    else if !validHost u host then .error (.invalidHost field raw)
    else if host ∈ result then normalizeHostsFrom field result values
    else normalizeHostsFrom field (result ++ [host]) values

/-- `normalizeRuntimeHosts`. -/
def normalizeRuntimeHosts (values : List GoString) (field : String) :
    Except SettingsError (List GoString) :=
  normalizeHostsFrom u field [] values

/-- An absolute `http` or `https` URL, the only fallback a visitor is sent to. -/
def validFallback (raw : GoString) : Bool :=
  match Url.parse u raw with
  | none => false
  | some parsed =>
    parsed.host != [] && (parsed.scheme == lit "http" || parsed.scheme == lit "https")

/-- A bound check of the source. -/
def checkRange (field : String) (low high value : Int) : Except SettingsError Unit :=
  if value < low ∨ value > high then .error (.outOfRange field low high) else .ok ()

/-- The bound checks of `NormalizeRuntimeSettings`.  The source ranges over the
six rate limits as a map, so which of several bad ones it names is arbitrary. -/
def checkBounds (input : RuntimeSettingsInput) : Except SettingsError Unit := do
  checkRange "prune_grace_seconds" 0 maxRuntimeGrace input.pruneGraceSeconds
  checkRange "health_check_interval_seconds" 1 maxRuntimeHealthCheck
    input.healthCheckIntervalSeconds
  checkRange "max_links_per_user" 0 maxRuntimeLinks input.maxLinksPerUser
  checkRange "rate_limit_login" 0 maxRuntimeRateLimit input.rateLimitLogin
  checkRange "rate_limit_api" 0 maxRuntimeRateLimit input.rateLimitAPI
  checkRange "rate_limit_redirect" 0 maxRuntimeRateLimit input.rateLimitRedirect
  checkRange "rate_limit_register" 0 maxRuntimeRateLimit input.rateLimitRegister
  checkRange "rate_limit_2fa" 0 maxRuntimeRateLimit input.rateLimit2FA
  checkRange "rate_limit_oidc" 0 maxRuntimeRateLimit input.rateLimitOIDC

/-- `NormalizeRuntimeSettings`. -/
def NormalizeRuntimeSettings (input : RuntimeSettingsInput) :
    Except SettingsError RuntimeSettingsInput :=
  let aliasMode := toLower u (trimSpace input.aliasMode)
  let fallbackURL := trimSpace input.fallbackURL
  if aliasMode ≠ lit "random" ∧ aliasMode ≠ lit "sequential" then .error .aliasMode
  else if fallbackURL ≠ [] ∧ !validFallback u fallbackURL then .error .fallbackURL
  else
    match checkBounds input with
    | .error e => .error e
    | .ok () =>
      match normalizeRuntimeHosts u input.shortDomains "short_domains" with
      | .error e => .error e
      | .ok shortDomains =>
        match normalizeRuntimeHosts u input.destinationDenylist "destination_denylist" with
        | .error e => .error e
        | .ok destinationDenylist =>
          .ok { input with aliasMode, fallbackURL, shortDomains, destinationDenylist }

/-! ## Normalization settles -/

/-- An entry of a normalized list: a bare, valid host in its canonical spelling. -/
structure NormalHost (host : GoString) : Prop where
  ne_nil : host ≠ []
  fold : foldHost u host = host
  bare : bareHost host
  valid : validHost u host

theorem foldHost_foldHost (raw : GoString) : foldHost u (foldHost u raw) = foldHost u raw := by
  rw [foldHost, foldHost, trimSpace_toLower_trimSpace, toLower_toLower]

/-- What the loop keeps is normal and free of duplicates. -/
theorem normalizeHostsFrom_ok {field : String} {values result out : List GoString}
    (h : normalizeHostsFrom u field result values = .ok out) (hnodup : result.Nodup)
    (hnormal : ∀ host ∈ result, NormalHost u host) :
    out.Nodup ∧ ∀ host ∈ out, NormalHost u host := by
  induction values generalizing result with
  | nil =>
    obtain rfl : result = out := by simpa [normalizeHostsFrom] using h
    exact ⟨hnodup, hnormal⟩
  | cons raw values ih =>
    rw [normalizeHostsFrom] at h
    split_ifs at h with hnil hbare hvalid hmem
    · exact ih h hnodup hnormal
    · exact ih h hnodup hnormal
    · refine ih h ?_ ?_
      · rw [List.nodup_append]
        refine ⟨hnodup, by simp, ?_⟩
        rintro host hhost other hother rfl
        exact hmem (List.mem_singleton.mp hother ▸ hhost)
      · intro host hhost
        rcases List.mem_append.mp hhost with hhost | hhost
        · exact hnormal host hhost
        · obtain rfl : host = foldHost u raw := by simpa using hhost
          exact ⟨hnil, foldHost_foldHost u raw, by simpa using hbare, by simpa using hvalid⟩

/-- The loop keeps normal entries as they are. -/
theorem normalizeHostsFrom_normal {field : String} {values result : List GoString}
    (hnormal : ∀ host ∈ values, NormalHost u host) (hnodup : (result ++ values).Nodup) :
    normalizeHostsFrom u field result values = .ok (result ++ values) := by
  induction values generalizing result with
  | nil => simp [normalizeHostsFrom]
  | cons host values ih =>
    obtain ⟨hnil, hfold, hbare, hvalid⟩ := hnormal host (by simp)
    have hnot : host ∉ result := by
      intro hmem
      rw [List.nodup_append] at hnodup
      exact hnodup.2.2 host hmem host (by simp) rfl
    have hrest : ((result ++ [host]) ++ values).Nodup := by simpa using hnodup
    have hvalues := ih (fun other hother => hnormal other (by simp [hother])) hrest
    simpa [normalizeHostsFrom, hfold, hnil, hbare, hvalid, hnot] using hvalues

theorem normalizeRuntimeHosts_normal {values out : List GoString} {field : String}
    (h : normalizeRuntimeHosts u values field = .ok out) :
    out.Nodup ∧ ∀ host ∈ out, NormalHost u host :=
  normalizeHostsFrom_ok u h List.nodup_nil (by simp)

theorem normalizeRuntimeHosts_idem {values out : List GoString} {field : String}
    (h : normalizeRuntimeHosts u values field = .ok out) (other : String) :
    normalizeRuntimeHosts u out other = .ok out := by
  obtain ⟨hnodup, hnormal⟩ := normalizeRuntimeHosts_normal u h
  have hkept : ([] ++ out).Nodup := by simpa using hnodup
  simpa [normalizeRuntimeHosts] using normalizeHostsFrom_normal u hnormal hkept

/-- What a successful normalization has checked, and what it returns. -/
theorem normalizeRuntimeSettings_ok {input out : RuntimeSettingsInput}
    (h : NormalizeRuntimeSettings u input = .ok out) :
    ((out.aliasMode = lit "random" ∨ out.aliasMode = lit "sequential") ∧
      (out.fallbackURL = [] ∨ validFallback u out.fallbackURL) ∧ checkBounds input = .ok () ∧
      normalizeRuntimeHosts u input.shortDomains "short_domains" = .ok out.shortDomains ∧
      normalizeRuntimeHosts u input.destinationDenylist "destination_denylist" =
        .ok out.destinationDenylist) ∧
    out = { input with
      aliasMode := toLower u (trimSpace input.aliasMode)
      fallbackURL := trimSpace input.fallbackURL
      shortDomains := out.shortDomains
      destinationDenylist := out.destinationDenylist } := by
  unfold NormalizeRuntimeSettings at h
  dsimp only at h
  split_ifs at h with hmode hfallback
  split at h
  · simp at h
  rename_i hbounds
  split at h
  · simp at h
  rename_i hshort
  split at h
  · simp at h
  rename_i hdeny
  obtain rfl := (Except.ok.inj h).symm
  refine ⟨⟨?_, ?_, hbounds, hshort, hdeny⟩, rfl⟩
  · by_contra hnot
    exact hmode (not_or.mp hnot)
  · by_contra hnot
    exact hfallback ((not_or.mp hnot).imp_right (by simp))

/-- Settings that pass the checks in their canonical spelling are left as they are. -/
theorem normalizeRuntimeSettings_self {out : RuntimeSettingsInput}
    (hmode : out.aliasMode = lit "random" ∨ out.aliasMode = lit "sequential")
    (hcanonical : toLower u (trimSpace out.aliasMode) = out.aliasMode)
    (hfallback : out.fallbackURL = [] ∨ validFallback u out.fallbackURL)
    (htrimmed : trimSpace out.fallbackURL = out.fallbackURL) (hbounds : checkBounds out = .ok ())
    (hshort : normalizeRuntimeHosts u out.shortDomains "short_domains" = .ok out.shortDomains)
    (hdeny : normalizeRuntimeHosts u out.destinationDenylist "destination_denylist" =
      .ok out.destinationDenylist) :
    NormalizeRuntimeSettings u out = .ok out := by
  have hbad : ¬ (out.aliasMode ≠ lit "random" ∧ out.aliasMode ≠ lit "sequential") :=
    fun hne => hmode.elim hne.1 hne.2
  have hbad' : ¬ (out.fallbackURL ≠ [] ∧ (!validFallback u out.fallbackURL) = true) := by
    rintro ⟨hne, hnot⟩
    rcases hfallback with hnil | hvalid
    · exact hne hnil
    · simp [hvalid] at hnot
  unfold NormalizeRuntimeSettings
  dsimp only
  rw [hcanonical, htrimmed, if_neg hbad, if_neg hbad', hbounds, hshort, hdeny]

/-- Normalized settings normalize to themselves. -/
theorem normalizeRuntimeSettings_idem {input out : RuntimeSettingsInput}
    (h : NormalizeRuntimeSettings u input = .ok out) :
    NormalizeRuntimeSettings u out = .ok out := by
  obtain ⟨⟨hmode, hfallback, hbounds, hshort, hdeny⟩, hout⟩ := normalizeRuntimeSettings_ok u h
  have hcanonical : toLower u (trimSpace out.aliasMode) = out.aliasMode := by
    rw [hout, trimSpace_toLower_trimSpace, toLower_toLower]
  have htrimmed : trimSpace out.fallbackURL = out.fallbackURL := by
    rw [hout, trimSpace_trimSpace]
  have hbounds' : checkBounds out = .ok () := by
    rw [hout]
    exact hbounds
  exact normalizeRuntimeSettings_self u hmode hcanonical hfallback htrimmed hbounds'
    (normalizeRuntimeHosts_idem u hshort _) (normalizeRuntimeHosts_idem u hdeny _)

end

end Purels.Config
