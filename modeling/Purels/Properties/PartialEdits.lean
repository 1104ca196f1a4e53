import Purels.Properties.FactorKept
import Purels.Service.Captcha
import Purels.Service.OidcProviders

/-!
# Partial edits beside each other

An edit of an identity provider, or of the CAPTCHA settings, reads the row, applies the
fields of its request and writes every column but the secret back.

* `ProviderStands`, `CaptchaStands`: the fields that one request supplies and another does
  not are in the row.
* `ProviderWaits`, `CaptchaWaits`: a call does not write while the other one holds what it has
  read, unless the row has already what it alone supplies.
* `partial_edits_iff`, for every run of two calls, and `disable_undone`, a run in which a new
  name enables a provider that has just been disabled.
-/

namespace Purels.Properties

open Go Security Store Service Lib

/-! ## Providers -/

/-- The fields that `req` supplies and `other` does not have the normalized values. -/
structure ProviderStands (cfg : ProviderConfig) (asks other : OIDCProviderInput × List UInt8)
    (row : OIDCProviderRow) : Prop where
  slug : ∀ v ∈ asks.1.slug, other.1.slug = none → row.slug = toLower cfg.u (trimSpace v)
  displayName : ∀ v ∈ asks.1.displayName, other.1.displayName = none →
    row.displayName = trimSpace v
  issuer : ∀ v ∈ asks.1.issuer, other.1.issuer = none → normalizeIssuer cfg v = .ok row.issuer
  clientID : ∀ v ∈ asks.1.clientID, other.1.clientID = none → row.clientID = trimSpace v
  scopes : ∀ v ∈ asks.1.scopes, other.1.scopes = none → normalizeOIDCScopes v = .ok row.scopes
  autoProvision : ∀ v ∈ asks.1.autoProvision, other.1.autoProvision = none → row.autoProvision = v
  enabled : ∀ v ∈ asks.1.enabled, other.1.enabled = none → row.enabled = v
  clientSecret : ∀ v ∈ asks.1.clientSecret, v ≠ [] → suppliesSecret other.1.clientSecret = false →
    row.clientSecret = some (cfg.crypto.gcmSeal asks.2 v)

/-- Normalized like the request, the fields of the row are those already.  Slug and secret
are not among them, as an update writes neither back. -/
structure ProviderAlready (cfg : ProviderConfig) (asks other : OIDCProviderInput × List UInt8)
    (row : OIDCProviderRow) : Prop where
  displayName : ∀ v ∈ asks.1.displayName, other.1.displayName = none →
    trimSpace row.displayName = trimSpace v
  issuer : ∀ v ∈ asks.1.issuer, other.1.issuer = none →
    normalizeIssuer cfg row.issuer = normalizeIssuer cfg v
  clientID : ∀ v ∈ asks.1.clientID, other.1.clientID = none →
    trimSpace row.clientID = trimSpace v
  scopes : ∀ v ∈ asks.1.scopes, other.1.scopes = none →
    (normalizeOIDCScopes row.scopes).map (List.map jsonText) = normalizeOIDCScopes v
  autoProvision : ∀ v ∈ asks.1.autoProvision, other.1.autoProvision = none → row.autoProvision = v
  enabled : ∀ v ∈ asks.1.enabled, other.1.enabled = none → row.enabled = v

section

variable {cfg : ProviderConfig} {asks other : OIDCProviderInput × List UInt8}
  {seen : OIDCProvider} {row row' row'' : OIDCProviderRow}

/-- A request's scopes that were written are its normalized ones. -/
theorem written_scopes {v scopes : List GoString} (hv : v ∈ asks.1.scopes)
    (h : normalizeOIDCScopes v = .ok scopes) : normalizeOIDCScopes v = .ok (scopes.map jsonText) := by
  rw [jsonText_scopes (normalizeOIDCScopes_valid h (asks.1.scopesValid v hv))]
  exact h

theorem provider_own (halike : seen.slug = row.slug) (h : ProviderWritten cfg asks seen row row') :
    ProviderStands cfg asks other row' where
  slug v hv _ := by rw [h.slug, ← halike, h.asked v hv]
  displayName v hv _ := by rw [h.displayName, hv, Option.getD_some]
  issuer v hv _ := by
    have hissuer := h.issuer
    rwa [hv, Option.getD_some] at hissuer
  clientID v hv _ := by rw [h.clientID, hv, Option.getD_some]
  scopes v hv _ := by
    obtain ⟨scopes, hscopes, hrow⟩ := h.scopes
    rw [hv, Option.getD_some] at hscopes
    rw [hrow]
    exact written_scopes hv hscopes
  autoProvision v hv _ := by rw [h.autoProvision, hv, Option.getD_some]
  enabled v hv _ := by rw [h.enabled, hv, Option.getD_some]
  clientSecret v hv hne _ := by
    have hsupplies : suppliesSecret asks.1.clientSecret = true := by
      rw [hv]
      simpa [suppliesSecret] using hne
    rw [h.clientSecret, hsupplies, hv]
    rfl

theorem provider_serial (hstands : ProviderStands cfg asks other row)
    (h : ProviderWritten cfg other (readProvider row) row row') :
    ProviderStands cfg asks other row' where
  slug v hv hother := h.slug.trans (hstands.slug v hv hother)
  displayName v hv hother := by
    rw [h.displayName, hother, Option.getD_none]
    show trimSpace row.displayName = _
    rw [hstands.displayName v hv hother, trimSpace_trimSpace]
  issuer v hv hother := by
    have hagain := h.issuer
    rw [hother, Option.getD_none] at hagain
    have hbefore := hstands.issuer v hv hother
    rw [normalizeIssuer_again cfg hbefore hagain]
    exact hbefore
  clientID v hv hother := by
    rw [h.clientID, hother, Option.getD_none]
    show trimSpace row.clientID = _
    rw [hstands.clientID v hv hother, trimSpace_trimSpace]
  scopes v hv hother := by
    obtain ⟨scopes, hscopes, hrow⟩ := h.scopes
    have hbefore := hstands.scopes v hv hother
    rw [hother, Option.getD_none] at hscopes
    have hagain : scopes = row.scopes :=
      Except.ok.inj (hscopes.symm.trans (normalizeOIDCScopes_again hbefore))
    rw [hrow, hagain]
    exact written_scopes hv hbefore
  autoProvision v hv hother := by
    rw [h.autoProvision, hother]
    exact hstands.autoProvision v hv hother
  enabled v hv hother := by
    rw [h.enabled, hother]
    exact hstands.enabled v hv hother
  clientSecret v hv hne hother := by
    rw [h.clientSecret, hother]
    exact hstands.clientSecret v hv hne hother

/-- After two writes that have both read the first row, what the first one asks for stands if
it stood before. -/
theorem provider_overlap (h : ProviderWritten cfg asks (readProvider row) row row')
    (h' : ProviderWritten cfg other (readProvider row) row' row'') :
    ProviderStands cfg asks other row'' ↔ ProviderAlready cfg asks other row := by
  -- what the second write makes of a field it does not supply
  have hdisplayName : other.1.displayName = none → row''.displayName = trimSpace row.displayName :=
    fun hother => by
      rw [h'.displayName, hother]
      rfl
  have hissuer : other.1.issuer = none → normalizeIssuer cfg row.issuer = .ok row''.issuer :=
    fun hother => by
      have hwritten := h'.issuer
      rwa [hother, Option.getD_none] at hwritten
  have hclientID : other.1.clientID = none → row''.clientID = trimSpace row.clientID :=
    fun hother => by
      rw [h'.clientID, hother]
      rfl
  have hscopes : other.1.scopes = none →
      (normalizeOIDCScopes row.scopes).map (List.map jsonText) = .ok row''.scopes := fun hother => by
    obtain ⟨scopes, hnormalized, hrow⟩ := h'.scopes
    rw [hother, Option.getD_none] at hnormalized
    have hnormalized' : normalizeOIDCScopes row.scopes = .ok scopes := hnormalized
    rw [hnormalized', hrow]
    rfl
  have hautoProvision : other.1.autoProvision = none → row''.autoProvision = row.autoProvision :=
    fun hother => by
      rw [h'.autoProvision, hother]
      rfl
  have henabled : other.1.enabled = none → row''.enabled = row.enabled := fun hother => by
    rw [h'.enabled, hother]
    rfl
  constructor
  · intro hstands
    exact
      { displayName := fun v hv hother =>
          (hdisplayName hother).symm.trans (hstands.displayName v hv hother)
        issuer := fun v hv hother => (hissuer hother).trans (hstands.issuer v hv hother).symm
        clientID := fun v hv hother => (hclientID hother).symm.trans (hstands.clientID v hv hother)
        scopes := fun v hv hother => (hscopes hother).trans (hstands.scopes v hv hother).symm
        autoProvision := fun v hv hother =>
          (hautoProvision hother).symm.trans (hstands.autoProvision v hv hother)
        enabled := fun v hv hother => (henabled hother).symm.trans (hstands.enabled v hv hother) }
  · intro halready
    exact
      { slug := fun v hv _ => h'.slug.trans (h.slug.trans (h.asked v hv).symm)
        displayName := fun v hv hother =>
          (hdisplayName hother).trans (halready.displayName v hv hother)
        issuer := fun v hv hother => (halready.issuer v hv hother).symm.trans (hissuer hother)
        clientID := fun v hv hother => (hclientID hother).trans (halready.clientID v hv hother)
        scopes := fun v hv hother => (halready.scopes v hv hother).symm.trans (hscopes hother)
        autoProvision := fun v hv hother =>
          (hautoProvision hother).trans (halready.autoProvision v hv hother)
        enabled := fun v hv hother => (henabled hother).trans (halready.enabled v hv hother)
        clientSecret := fun v hv hne hother => by
          rw [h'.clientSecret, hother]
          exact (provider_own rfl h).clientSecret v hv hne hother }

theorem provider_laws (cfg : ProviderConfig) :
    EditLaws (fun _ => readProvider) (WritesProvider cfg) (fun _ seen row => seen.slug = row.slug)
      (ProviderStands cfg) (ProviderAlready cfg) where
  read_alike _ _ := rfl
  write_alike hwrite halike := halike.trans (hwrite.written cfg).slug.symm
  own halike hwrite := provider_own halike (hwrite.written cfg)
  serial hstands hwrite := provider_serial hstands (hwrite.written cfg)
  overlap hwrite hwrite' := provider_overlap (hwrite.written cfg) (hwrite'.written cfg)

end

/-! ## The CAPTCHA settings -/

/-- The fields that `asks` supplies and `other` does not have the normalized values. -/
structure CaptchaStands (cfg : CaptchaConfig) (asks other : CaptchaSettingsInput × List UInt8)
    (row : CaptchaRow) : Prop where
  enabled : ∀ v ∈ asks.1.enabled, other.1.enabled = none → row.enabled = v
  siteKey : ∀ v ∈ asks.1.siteKey, other.1.siteKey = none →
    row.siteKey = nullableText (trimSpace v)
  expectedHostname : ∀ v ∈ asks.1.expectedHostname, other.1.expectedHostname = none →
    row.expectedHostname = nullableText (normalizeCaptchaHostname cfg v)
  expectedAction : ∀ v ∈ asks.1.expectedAction, other.1.expectedAction = none →
    row.expectedAction = nullableText (trimSpace v)
  secret : ∀ v ∈ asks.1.secret, v ≠ [] → suppliesSecret other.1.secret = false →
    row.secret = some (cfg.crypto.gcmSeal asks.2 v)

/-- The fields of the row are those of the request already, no text being empty text. -/
structure CaptchaAlready (cfg : CaptchaConfig) (asks other : CaptchaSettingsInput × List UInt8)
    (row : CaptchaRow) : Prop where
  enabled : ∀ v ∈ asks.1.enabled, other.1.enabled = none → row.enabled = v
  siteKey : ∀ v ∈ asks.1.siteKey, other.1.siteKey = none →
    nullableText (row.siteKey.getD []) = nullableText (trimSpace v)
  expectedHostname : ∀ v ∈ asks.1.expectedHostname, other.1.expectedHostname = none →
    nullableText (row.expectedHostname.getD []) = nullableText (normalizeCaptchaHostname cfg v)
  expectedAction : ∀ v ∈ asks.1.expectedAction, other.1.expectedAction = none →
    nullableText (row.expectedAction.getD []) = nullableText (trimSpace v)

section

variable {cfg : CaptchaConfig} {asks other : CaptchaSettingsInput × List UInt8}
  {seen row row' row'' : CaptchaRow}

theorem captcha_own (h : CaptchaWritten cfg asks seen row row') :
    CaptchaStands cfg asks other row' where
  enabled v hv _ := by rw [h.enabled, hv, Option.getD_some]
  siteKey v hv _ := by rw [h.siteKey, hv, Option.map_some, Option.getD_some]
  expectedHostname v hv _ := by rw [h.expectedHostname, hv, Option.map_some, Option.getD_some]
  expectedAction v hv _ := by rw [h.expectedAction, hv, Option.map_some, Option.getD_some]
  secret v hv hne _ := by
    have hsupplies : suppliesSecret asks.1.secret = true := by
      rw [hv]
      simpa [suppliesSecret] using hne
    rw [h.secret, hsupplies, hv]
    rfl

/-- A field that an edit does not supply is written back. -/
theorem written_back {α : Type} {f : α → GoString} {supplied : Option α} {before after : Option GoString}
    (h : after = nullableText ((supplied.map f).getD (before.getD []))) (hnone : supplied = none) :
    after = nullableText (before.getD []) := by
  rw [h, hnone]
  rfl

theorem captcha_serial (hstands : CaptchaStands cfg asks other row)
    (h : CaptchaWritten cfg other row row row') : CaptchaStands cfg asks other row' where
  enabled v hv hother := by
    rw [h.enabled, hother]
    exact hstands.enabled v hv hother
  siteKey v hv hother := by
    rw [written_back h.siteKey hother, hstands.siteKey v hv hother, nullableText_getD]
  expectedHostname v hv hother := by
    rw [written_back h.expectedHostname hother, hstands.expectedHostname v hv hother,
      nullableText_getD]
  expectedAction v hv hother := by
    rw [written_back h.expectedAction hother, hstands.expectedAction v hv hother,
      nullableText_getD]
  secret v hv hne hother := by
    rw [h.secret, hother]
    exact hstands.secret v hv hne hother

theorem captcha_overlap (h : CaptchaWritten cfg asks row row row')
    (h' : CaptchaWritten cfg other row row' row'') :
    CaptchaStands cfg asks other row'' ↔ CaptchaAlready cfg asks other row := by
  have henabled : other.1.enabled = none → row''.enabled = row.enabled := fun hother => by
    rw [h'.enabled, hother]
    rfl
  constructor
  · intro hstands
    exact
      { enabled := fun v hv hother => (henabled hother).symm.trans (hstands.enabled v hv hother)
        siteKey := fun v hv hother =>
          (written_back h'.siteKey hother).symm.trans (hstands.siteKey v hv hother)
        expectedHostname := fun v hv hother =>
          (written_back h'.expectedHostname hother).symm.trans (hstands.expectedHostname v hv hother)
        expectedAction := fun v hv hother =>
          (written_back h'.expectedAction hother).symm.trans (hstands.expectedAction v hv hother) }
  · intro halready
    exact
      { enabled := fun v hv hother => (henabled hother).trans (halready.enabled v hv hother)
        siteKey := fun v hv hother =>
          (written_back h'.siteKey hother).trans (halready.siteKey v hv hother)
        expectedHostname := fun v hv hother =>
          (written_back h'.expectedHostname hother).trans (halready.expectedHostname v hv hother)
        expectedAction := fun v hv hother =>
          (written_back h'.expectedAction hother).trans (halready.expectedAction v hv hother)
        secret := fun v hv hne hother => by
          rw [h'.secret, hother]
          exact (captcha_own h).secret v hv hne hother }

theorem captcha_laws (cfg : CaptchaConfig) :
    EditLaws (readCaptcha cfg) WritesCaptcha
      (fun asks seen _ => ∃ before, seen = readCaptcha cfg asks before)
      (CaptchaStands cfg) (CaptchaAlready cfg) where
  read_alike _ row := ⟨row, rfl⟩
  write_alike _ halike := halike
  own := by
    rintro asks other _ row row' ⟨before, rfl⟩ hwrite
    exact captcha_own (hwrite.written cfg)
  serial hstands hwrite := captcha_serial hstands (hwrite.written cfg)
  overlap hwrite hwrite' := captcha_overlap (hwrite.written cfg) (hwrite'.written cfg)

end

/-! ## Runs of two calls -/

/-- What a call asks for, and the nonce of its secret. -/
def ProviderEdit.asks (edit : ProviderEdit) : OIDCProviderInput × List UInt8 :=
  (edit.req, edit.sealNonce)

/-- A call on the provider that has not begun. -/
def ProviderEdit.Starts (id : Uuid) (edit : ProviderEdit) : Prop :=
  edit.stage = .read ∧ LinkStore.uuidParam edit.id = .ok id

def ProviderEdit.succeeded (edit : ProviderEdit) : Bool :=
  match edit.stage with
  | .done (.ok _) => true
  | _ => false

/-- The call has read its provider and not written it yet. -/
def ProviderEdit.holds (edit : ProviderEdit) : Bool :=
  match edit.stage with
  | .write _ => true
  | _ => false

/-- The call does not write while the other one has read the row and not written it yet, unless
the row has already what the call alone supplies. -/
def ProviderWaits (cfg : ProviderConfig) (id : Uuid) (s : Pool OIDCStore ProviderEdit) (i : ℕ) :
    Prop :=
  ∀ provider row, (s.locals i).stage = .write provider →
    ProviderEdit.holds (s.locals (1 - i)) → s.shared.providerRow id = some row →
    ProviderAlready cfg (ProviderEdit.asks (s.locals i)) (ProviderEdit.asks (s.locals (1 - i))) row

def CaptchaEdit.asks (edit : CaptchaEdit) : CaptchaSettingsInput × List UInt8 :=
  (edit.input, edit.sealNonce)

def CaptchaEdit.succeeded (edit : CaptchaEdit) : Bool :=
  match edit.stage with
  | .done (.ok _) => true
  | _ => false

/-- The call has read the settings and not written them yet. -/
def CaptchaEdit.holds (edit : CaptchaEdit) : Bool :=
  match edit.stage with
  | .readSecret _ _ => true
  | .write _ _ => true
  | _ => false

/-- The same for the CAPTCHA settings. -/
def CaptchaWaits (cfg : CaptchaConfig) (s : Pool (Option CaptchaRow) CaptchaEdit) (i : ℕ) : Prop :=
  ∀ settings sealed row, (s.locals i).stage = .write settings sealed →
    CaptchaEdit.holds (s.locals (1 - i)) → s.shared = some row →
    CaptchaAlready cfg (CaptchaEdit.asks (s.locals i)) (CaptchaEdit.asks (s.locals (1 - i))) row

section

variable {cfg : ProviderConfig} {id : Uuid} {s t : Pool OIDCStore ProviderEdit}
  {as : List (ℕ × Instant)}

theorem provider_phase_ready {stage : ProviderStage} {v : OIDCProvider}
    (h : stage.phase = .ready v) : ∃ provider, stage = .write provider := by
  cases stage with
  | read => cases h
  | write provider => exact ⟨provider, rfl⟩
  | reread id => cases h
  | done result => cases result <;> cases h

theorem provider_holds_iff (edit : ProviderEdit) :
    ProviderEdit.holds edit ↔ ∃ v, edit.stage.phase.Holds v := by
  unfold ProviderEdit.holds
  cases edit.stage with
  | read => exact iff_of_false nofun fun ⟨v, h⟩ => h.ne.1 rfl
  | write provider => exact iff_of_true rfl ⟨_, .inr rfl⟩
  | reread id => exact iff_of_false nofun fun ⟨v, h⟩ => h.ne.2.1 rfl
  | done result =>
    cases result with
    | error e => exact iff_of_false nofun fun ⟨v, h⟩ => h.ne.2.2 rfl
    | ok provider => exact iff_of_false nofun fun ⟨v, h⟩ => h.ne.2.1 rfl

theorem provider_waits_iff (i : ℕ) : ProviderWaits cfg id s i ↔
    (providerUpdates cfg id).Unhurried (ProviderAlready cfg) (1 - ·) s i := by
  constructor
  · intro h v w row hready hholds hrow
    obtain ⟨provider, hwrite⟩ := provider_phase_ready hready
    exact h provider row hwrite ((provider_holds_iff _).mpr ⟨w, hholds⟩) hrow
  · intro h provider row hwrite hholds hrow
    obtain ⟨w, hw⟩ := (provider_holds_iff _).mp hholds
    have hready : (providerUpdates cfg id).phase (s.locals i) = .ready (uncounted provider) :=
      congrArg ProviderStage.phase hwrite
    exact h _ w row hready hw hrow

theorem provider_written (edit : ProviderEdit) (h : ProviderEdit.succeeded edit) :
    (providerUpdates cfg id).phase edit = .written := by
  show edit.stage.phase = .written
  unfold ProviderEdit.succeeded at h
  split at h
  · rename_i hstage
    rw [hstage]
    rfl
  · cases h

/-- Two calls on one provider. -/
theorem provider_edits_iff (hstart : ProviderEdit.Starts id (s.locals 0))
    (hstart' : ProviderEdit.Starts id (s.locals 1)) (has : ∀ a ∈ as, a.1 = 0 ∨ a.1 = 1)
    (hrun : (providerEdits cfg).machine.run s as = some t)
    (hdone : ProviderEdit.succeeded (t.locals 0)) (hdone' : ProviderEdit.succeeded (t.locals 1)) :
    ∃ row, t.shared.providerRow id = some row ∧
      ((ProviderStands cfg (ProviderEdit.asks (s.locals 0)) (ProviderEdit.asks (s.locals 1)) row ∧
          ProviderStands cfg (ProviderEdit.asks (s.locals 1)) (ProviderEdit.asks (s.locals 0)) row) ↔
        (providerEdits cfg).machine.Along (fun s a => ProviderWaits cfg id s a.1) s as) := by
  have hsound : ∀ edit : ProviderEdit, ProviderEdit.Starts id edit →
      (providerUpdates cfg id).Sound edit := fun edit h =>
    ⟨h.2, fun provider hwrite => nomatch h.1.symm.trans hwrite⟩
  have hearly : ∀ i, ProviderEdit.Starts id (s.locals i) → (providerUpdates cfg id).Early s i :=
    fun i h => .inl (congrArg ProviderStage.phase h.1)
  have hasks := (providerUpdates cfg id).asks_of_run Nat.zero_ne_one
    ⟨hsound _ hstart, hsound _ hstart'⟩ has hrun
  obtain ⟨row, hrow, hiff⟩ := (providerUpdates cfg id).stand_iff (provider_laws cfg) (1 - ·)
    Nat.zero_ne_one rfl rfl ⟨hsound _ hstart, hsound _ hstart'⟩
    ⟨hearly 0 hstart, hearly 1 hstart'⟩ has hrun
    ⟨provider_written _ hdone, provider_written _ hdone'⟩
  rw [hasks.1, hasks.2] at hiff
  refine ⟨row, hrow, hiff.trans ⟨fun h => ?_, fun h => ?_⟩⟩
  · exact Machine.Along.imp _ (fun _ _ => (provider_waits_iff _).mpr) h
  · exact Machine.Along.imp _ (fun _ _ => (provider_waits_iff _).mp) h

end

section

variable {cfg : CaptchaConfig} {s t : Pool (Option CaptchaRow) CaptchaEdit}
  {as : List (ℕ × Instant)}

theorem captcha_phase_ready {stage : CaptchaStage}
    {v : Except ServiceError (CaptchaSettings × Option (List UInt8))} (h : stage.phase = .ready v) :
    ∃ settings sealed, stage = .write settings sealed := by
  cases stage with
  | read => cases h
  | readSecret settings sealed => cases h
  | write settings sealed => exact ⟨settings, sealed, rfl⟩
  | reread => cases h
  | done result => cases result <;> cases h

theorem captcha_holds_iff (edit : CaptchaEdit) :
    CaptchaEdit.holds edit ↔ ∃ v, edit.stage.phase.Holds v := by
  unfold CaptchaEdit.holds
  cases edit.stage with
  | read => exact iff_of_false nofun fun ⟨v, h⟩ => h.ne.1 rfl
  | readSecret settings sealed => exact iff_of_true rfl ⟨_, .inl rfl⟩
  | write settings sealed => exact iff_of_true rfl ⟨_, .inr rfl⟩
  | reread => exact iff_of_false nofun fun ⟨v, h⟩ => h.ne.2.1 rfl
  | done result =>
    cases result with
    | error e => exact iff_of_false nofun fun ⟨v, h⟩ => h.ne.2.2 rfl
    | ok settings => exact iff_of_false nofun fun ⟨v, h⟩ => h.ne.2.1 rfl

theorem captcha_waits_iff (i : ℕ) : CaptchaWaits cfg s i ↔
    (captchaUpdates cfg).Unhurried (CaptchaAlready cfg) (1 - ·) s i := by
  constructor
  · intro h v w row hready hholds hrow
    obtain ⟨settings, sealed, hwrite⟩ := captcha_phase_ready hready
    exact h settings sealed row hwrite ((captcha_holds_iff _).mpr ⟨w, hholds⟩) hrow
  · intro h settings sealed row hwrite hholds hrow
    obtain ⟨w, hw⟩ := (captcha_holds_iff _).mp hholds
    have hready : (captchaUpdates cfg).phase (s.locals i) = .ready (.ok (settings, sealed)) :=
      congrArg CaptchaStage.phase hwrite
    exact h _ w row hready hw hrow

theorem captcha_written (edit : CaptchaEdit) (h : CaptchaEdit.succeeded edit) :
    (captchaUpdates cfg).phase edit = .written := by
  show edit.stage.phase = .written
  unfold CaptchaEdit.succeeded at h
  split at h
  · rename_i hstage
    rw [hstage]
    rfl
  · cases h

/-- Two calls on the CAPTCHA settings. -/
theorem captcha_edits_iff (hstart : (s.locals 0).stage = .read)
    (hstart' : (s.locals 1).stage = .read) (has : ∀ a ∈ as, a.1 = 0 ∨ a.1 = 1)
    (hrun : (captchaEdits cfg).machine.run s as = some t)
    (hdone : CaptchaEdit.succeeded (t.locals 0)) (hdone' : CaptchaEdit.succeeded (t.locals 1)) :
    ∃ row, t.shared = some row ∧
      ((CaptchaStands cfg (CaptchaEdit.asks (s.locals 0)) (CaptchaEdit.asks (s.locals 1)) row ∧
          CaptchaStands cfg (CaptchaEdit.asks (s.locals 1)) (CaptchaEdit.asks (s.locals 0)) row) ↔
        (captchaEdits cfg).machine.Along (fun s a => CaptchaWaits cfg s a.1) s as) := by
  have hearly : ∀ i, (s.locals i).stage = .read → (captchaUpdates cfg).Early s i :=
    fun i h => .inl (congrArg CaptchaStage.phase h)
  have hasks := (captchaUpdates cfg).asks_of_run Nat.zero_ne_one ⟨trivial, trivial⟩ has hrun
  obtain ⟨row, hrow, hiff⟩ := (captchaUpdates cfg).stand_iff (captcha_laws cfg) (1 - ·)
    Nat.zero_ne_one rfl rfl ⟨trivial, trivial⟩ ⟨hearly 0 hstart, hearly 1 hstart'⟩ has hrun
    ⟨captcha_written _ hdone, captcha_written _ hdone'⟩
  rw [hasks.1, hasks.2] at hiff
  refine ⟨row, hrow, hiff.trans ⟨fun h => ?_, fun h => ?_⟩⟩
  · exact Machine.Along.imp _ (fun _ _ => (captcha_waits_iff _).mpr) h
  · exact Machine.Along.imp _ (fun _ _ => (captcha_waits_iff _).mp) h

end

/-- Two edits of a provider, and two of the CAPTCHA settings, that both succeed: what only one of
them supplies is in the row afterwards exactly when no call writes while the other one holds
what it has read, but for writes of what is there already. -/
theorem partial_edits_iff (cfg : ProviderConfig) (captcha : CaptchaConfig) :
    (∀ (id : Uuid) (s t : Pool OIDCStore ProviderEdit) (as : List (ℕ × Instant)),
      ProviderEdit.Starts id (s.locals 0) → ProviderEdit.Starts id (s.locals 1) →
      (∀ a ∈ as, a.1 = 0 ∨ a.1 = 1) → (providerEdits cfg).machine.run s as = some t →
      ProviderEdit.succeeded (t.locals 0) → ProviderEdit.succeeded (t.locals 1) →
      ∃ row, t.shared.providerRow id = some row ∧
        ((ProviderStands cfg (ProviderEdit.asks (s.locals 0)) (ProviderEdit.asks (s.locals 1))
            row ∧
          ProviderStands cfg (ProviderEdit.asks (s.locals 1)) (ProviderEdit.asks (s.locals 0))
            row) ↔
        (providerEdits cfg).machine.Along (fun s a => ProviderWaits cfg id s a.1) s as)) ∧
    ∀ (s t : Pool (Option CaptchaRow) CaptchaEdit) (as : List (ℕ × Instant)),
      (s.locals 0).stage = .read → (s.locals 1).stage = .read →
      (∀ a ∈ as, a.1 = 0 ∨ a.1 = 1) → (captchaEdits captcha).machine.run s as = some t →
      CaptchaEdit.succeeded (t.locals 0) → CaptchaEdit.succeeded (t.locals 1) →
      ∃ row, t.shared = some row ∧
        ((CaptchaStands captcha (CaptchaEdit.asks (s.locals 0)) (CaptchaEdit.asks (s.locals 1))
            row ∧
          CaptchaStands captcha (CaptchaEdit.asks (s.locals 1)) (CaptchaEdit.asks (s.locals 0))
            row) ↔
        (captchaEdits captcha).machine.Along (fun s a => CaptchaWaits captcha s a.1) s as) :=
  ⟨fun _ _ _ _ hstart hstart' has hrun hdone hdone' =>
    provider_edits_iff hstart hstart' has hrun hdone hdone',
   fun _ _ _ hstart hstart' has hrun hdone hdone' =>
    captcha_edits_iff hstart hstart' has hrun hdone hdone'⟩

/-! ## A provider that is renamed while it is disabled -/

/-- A deployment without a key. -/
def keyless : ProviderConfig where
  u := .ascii
  crypto := plainCrypto
  box := ⟨false⟩
  secretsAvailable := false
  allowInsecureIssuers := false

def corporate : OIDCStore where
  providers := [{
    id := default
    slug := lit "corp"
    displayName := lit "Corp"
    issuer := lit "https://id.corp"
    clientID := lit "purels"
    scopes := [lit "openid"] }]

/-- One call disables the provider, the other one names it. -/
def twoEdits : Pool OIDCStore ProviderEdit where
  shared := corporate
  locals i :=
    { id := lit "00000000-0000-0000-0000-000000000000"
      req := if i = 0 then { enabled := some false } else { displayName := some (lit "Corporate") }
      sealNonce := [] }

/-- One after the other, both stand. -/
theorem disable_kept : ∃ t row,
    (providerEdits keyless).machine.run twoEdits
        [(1, 0), (1, 0), (1, 0), (0, 0), (0, 0), (0, 0)] = some t ∧
      t.shared.providerRow default = some row ∧ row.displayName = lit "Corporate" ∧
      row.enabled = false := by
  obtain ⟨t, hrun⟩ : ∃ t, (providerEdits keyless).machine.run twoEdits
      [(1, 0), (1, 0), (1, 0), (0, 0), (0, 0), (0, 0)] = some t :=
    Option.isSome_iff_exists.mp (by decide)
  have hdone : ((providerEdits keyless).machine.run twoEdits
      [(1, 0), (1, 0), (1, 0), (0, 0), (0, 0), (0, 0)]).map (fun t =>
        (ProviderEdit.succeeded (t.locals 0), ProviderEdit.succeeded (t.locals 1))) =
      some (true, true) := by decide
  rw [hrun, Option.map_some, Option.some.injEq, Prod.mk.injEq] at hdone
  obtain ⟨row, hrow, hiff⟩ := (partial_edits_iff keyless ⟨.ascii, plainCrypto, ⟨false⟩, false⟩).1
    default twoEdits t _ ⟨rfl, by decide⟩ ⟨rfl, by decide⟩ (by decide) hrun hdone.1 hdone.2
  obtain ⟨hstands, hstands'⟩ := hiff.mpr (Machine.along_of_check _
    (C := fun s a => !ProviderEdit.holds (s.locals (1 - a.1)))
    (fun s a hfree provider row _ hholds => by simp [hholds] at hfree) (by decide))
  refine ⟨t, row, hrun, hrow, ?_, hstands.enabled false rfl rfl⟩
  rw [hstands'.displayName (lit "Corporate") rfl rfl]
  decide

/-- The name is read before, and written after the provider is disabled. -/
theorem disable_undone :
    ((providerEdits keyless).machine.run twoEdits
        [(0, 0), (1, 0), (0, 0), (0, 0), (1, 0), (1, 0)]).map (fun t =>
      (ProviderEdit.succeeded (t.locals 0), ProviderEdit.succeeded (t.locals 1),
        t.shared.providers.map (fun row => (row.displayName, row.enabled)))) =
      some (true, true, [(lit "Corporate", true)]) := by
  decide

end Purels.Properties
