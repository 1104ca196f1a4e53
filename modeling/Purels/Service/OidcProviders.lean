import Purels.Go.UrlText
import Purels.Lib.Edits
import Purels.Lib.Patterns
import Purels.Security.SecondFactor
import Purels.Store.Oidc

/-!
# Edits of identity providers

`OIDCService.Update` as a process over the tables, statement by statement.

* `OIDCProviderInput`: a request; a field may be left out.
* `normalizeIssuer`, `normalizeOIDCScopes`, `normalizeProvider`: the checks of a provider.
  What they accept they accept unchanged.
* `editProvider`: the provider that is written, of the one that was read.
* `ProviderEdit`, `nextProviderStep` and `providerEdits`: the steps.
* `providerUpdates`: they are the steps of an edit of one row.
-/

namespace Purels.Service

open Go Security Store Lib

/-! ## Requests -/

/-- `OIDCProviderInput`.  A decoder of JSON reads valid text only. -/
structure OIDCProviderInput where
  slug : Option GoString := none
  displayName : Option GoString := none
  issuer : Option GoString := none
  clientID : Option GoString := none
  clientSecret : Option GoString := none
  scopes : Option (List GoString) := none
  autoProvision : Option Bool := none
  enabled : Option Bool := none
  scopesValid : ∀ list ∈ scopes, ∀ scope ∈ list, validString scope := by exact nofun

/-- What the service is given of the configuration. -/
structure ProviderConfig where
  u : Unicode
  crypto : Crypto
  box : SecretBox
  /-- `SecretsAvailable`: a key is configured. -/
  secretsAvailable : Bool
  /-- `OIDCAllowInsecureIssuers`. -/
  allowInsecureIssuers : Bool

/-! ## Checks -/

/-- `oidcSlugPattern`: `^[a-z0-9][a-z0-9_-]{1,31}$`. -/
def oidcSlugPattern (s : List Nat) : Bool :=
  (s.take 1).all (fun c => isLowerCode c || isDigitCode c) &&
    (s.drop 1).all (fun c => isLowerCode c || isDigitCode c || c == 0x5F || c == 0x2D) &&
    decide (2 ≤ s.length ∧ s.length ≤ 32)

/-- `oidcMaxDisplayNameLength`. -/
abbrev oidcMaxDisplayNameLength : Nat := 128

/-- `oidcDefaultScopes`, split. -/
def oidcDefaultScopes : List GoString := [lit "openid", lit "profile", lit "email"]

/-- The loop of `normalizeOIDCScopes`. -/
def cleanScopes : (seen : List GoString) → List GoString → List GoString
  | _, [] => []
  | seen, scope :: scopes =>
    if trimSpace scope == [] || seen.contains (trimSpace scope) then cleanScopes seen scopes
    else trimSpace scope :: cleanScopes (trimSpace scope :: seen) scopes

/-- `normalizeOIDCScopes`. -/
def normalizeOIDCScopes (scopes : List GoString) : Except ServiceError (List GoString) :=
  let normalized := cleanScopes [] (if scopes.length = 0 then oidcDefaultScopes else scopes)
  if normalized.contains (lit "openid") then .ok normalized
  else .error (.invalid "the scope list must include \"openid\"")

section

variable (cfg : ProviderConfig)

/-- `normalizeIssuer`. -/
def normalizeIssuer (raw : GoString) : Except ServiceError GoString :=
  let trimmed := trimSpace raw
  if trimmed = [] then .error (.invalid "an issuer is required")
  else
    match Url.parse cfg.u trimmed with
    | none => .error (.invalid "the issuer must be a URL")
    | some parsed =>
      if parsed.scheme ≠ lit "https" ∧
          ¬ (parsed.scheme = lit "http" ∧ cfg.allowInsecureIssuers) then
        .error (.invalid
          "the issuer must use https; set OIDC_ALLOW_INSECURE_ISSUERS to allow http")
      else if parsed.host = [] then .error (.invalid "the issuer must include a host")
      else if parsed.user ≠ none ∨ parsed.rawQuery ≠ [] ∨ parsed.fragment ≠ [] then
        .error (.invalid
          "the issuer must not carry credentials, a query string or a fragment")
      else .ok ({ parsed with host := toLower cfg.u parsed.host } : Url).toText

/-- `normalizeProvider`. -/
def normalizeProvider (provider : OIDCProvider) : Except ServiceError OIDCProvider :=
  let slug := toLower cfg.u (trimSpace provider.slug)
  let displayName := trimSpace provider.displayName
  let clientID := trimSpace provider.clientID
  if !oidcSlugPattern (runeCodes slug) then
    .error (.invalid "the slug must be 2-32 characters of a-z, 0-9, '-' or '_', and must start with a letter or a digit")
  else if displayName = [] then .error (.invalid "a display name is required")
  else if oidcMaxDisplayNameLength < (runes displayName).length then
    .error (.invalid "the display name must be at most 128 characters")
  else
    match normalizeIssuer cfg provider.issuer with
    | .error e => .error e
    | .ok issuer =>
      if clientID = [] then .error (.invalid "a client id is required")
      else
        match normalizeOIDCScopes provider.scopes with
        | .error e => .error e
        | .ok scopes => .ok { provider with slug, displayName, issuer, clientID, scopes }

/-- `sealClientSecret`: an empty secret is no secret.  `Seal` draws a nonce. -/
def sealClientSecret (sealNonce : List UInt8) (value : Option GoString) :
    Except ServiceError (Option (List UInt8)) :=
  match value with
  | none => .ok none
  | some value =>
    if value = [] then .ok none
    else if !cfg.secretsAvailable then .error .secretsUnavailable
    else
      match cfg.box.Seal cfg.crypto sealNonce value with
      | some sealed => .ok (some sealed)
      | none => .error (.invalid "no encryption key configured")

/-- The fields of the request over those of the provider. -/
def mergeProvider (req : OIDCProviderInput) (provider : OIDCProvider) : OIDCProvider :=
  { provider with
    displayName := req.displayName.getD provider.displayName
    issuer := req.issuer.getD provider.issuer
    clientID := req.clientID.getD provider.clientID
    scopes := req.scopes.getD provider.scopes
    autoProvision := req.autoProvision.getD provider.autoProvision
    enabled := req.enabled.getD provider.enabled }

/-- The body of `Update` between its two statements: the provider and the secret it writes. -/
def editProvider (req : OIDCProviderInput) (sealNonce : List UInt8) (provider : OIDCProvider) :
    Except ServiceError (OIDCProvider × Option (List UInt8)) :=
  if req.slug.any fun slug => toLower cfg.u (trimSpace slug) != provider.slug then
    .error .oidcSlugImmutable
  else
    match normalizeProvider cfg (mergeProvider req provider) with
    | .error e => .error e
    | .ok provider =>
      match sealClientSecret cfg sealNonce req.clientSecret with
      | .error e => .error e
      | .ok secret => .ok (provider, secret)

/-! ## What the checks accept -/

/-- A normalized issuer is the text of a web address. -/
theorem normalizeIssuer_ok {raw issuer : GoString} (h : normalizeIssuer cfg raw = .ok issuer) :
    ∃ url : Url, url.Plain ∧ toLower cfg.u url.host = url.host ∧ issuer = url.toText := by
  unfold normalizeIssuer at h
  dsimp only at h
  split_ifs at h with hempty
  split at h
  · cases h
  · rename_i parsed hparse
    split_ifs at h with hscheme hhost hrest
    cases h
    rw [not_or, not_or, not_not, not_not, not_not] at hrest
    have hweb : parsed.scheme = lit "http" ∨ parsed.scheme = lit "https" := by
      by_contra hnot
      exact hscheme ⟨fun h => hnot (.inr h), fun h => hnot (.inl h.1)⟩
    exact ⟨_, Url.plain_of_parse hparse hweb hhost hrest.1 hrest.2.1 hrest.2.2,
      toLower_toLower cfg.u _, rfl⟩

/-- A normalized issuer that is accepted again is kept. -/
theorem normalizeIssuer_again {raw issuer again : GoString}
    (h : normalizeIssuer cfg raw = .ok issuer) (h' : normalizeIssuer cfg issuer = .ok again) :
    again = issuer := by
  obtain ⟨url, hplain, hlower, rfl⟩ := normalizeIssuer_ok cfg h
  unfold normalizeIssuer at h'
  dsimp only at h'
  rw [trimSpace_printable fun b hb => ⟨(hplain.toText_mem hb).1, (hplain.toText_mem hb).2.1⟩] at h'
  split_ifs at h' with hempty
  split at h'
  · cases h'
  · rename_i parsed hparse
    obtain ⟨-, hhost, htext⟩ := hplain.parse_toText hparse
    split_ifs at h'
    cases h'
    have hsame : ({ parsed with host := toLower cfg.u parsed.host } : Url) = parsed := by
      rw [hhost, hlower, ← hhost]
    rw [hsame, htext]

omit cfg in
/-- Scopes that are clean stay as they are. -/
theorem cleanScopes_self {seen scopes : List GoString} (hnodup : scopes.Nodup)
    (hclean : ∀ scope ∈ scopes, trimSpace scope = scope ∧ scope ≠ [] ∧ scope ∉ seen) :
    cleanScopes seen scopes = scopes := by
  induction scopes generalizing seen with
  | nil => rfl
  | cons scope scopes ih =>
    obtain ⟨htrim, hne, hseen⟩ := hclean scope List.mem_cons_self
    obtain ⟨hnot, hnodup⟩ := List.nodup_cons.mp hnodup
    have hkeep : ¬ (scope == [] || seen.contains scope) = true := by simp [hne, hseen]
    rw [cleanScopes, htrim, if_neg hkeep, ih hnodup]
    intro other hother
    obtain ⟨htrim', hne', hseen'⟩ := hclean other (List.mem_cons_of_mem _ hother)
    refine ⟨htrim', hne', ?_⟩
    rintro hmem
    rcases List.mem_cons.mp hmem with rfl | hmem
    · exact hnot hother
    · exact hseen' hmem

omit cfg in
theorem cleanScopes_clean (seen scopes : List GoString) :
    (cleanScopes seen scopes).Nodup ∧ ∀ scope ∈ cleanScopes seen scopes,
      trimSpace scope = scope ∧ scope ≠ [] ∧ scope ∉ seen := by
  induction scopes generalizing seen with
  | nil => exact ⟨List.nodup_nil, List.forall_mem_nil _⟩
  | cons scope scopes ih =>
    rw [cleanScopes]
    split_ifs with hskip
    · exact ih seen
    · obtain ⟨hnodup, hclean⟩ := ih (trimSpace scope :: seen)
      have hkeep : trimSpace scope ≠ [] ∧ trimSpace scope ∉ seen := by simpa using hskip
      refine ⟨List.nodup_cons.mpr ⟨fun hmem => (hclean _ hmem).2.2 List.mem_cons_self, hnodup⟩, ?_⟩
      intro other hother
      rcases List.mem_cons.mp hother with rfl | hother
      · exact ⟨trimSpace_trimSpace scope, hkeep⟩
      · obtain ⟨htrim, hne, hseen⟩ := hclean other hother
        exact ⟨htrim, hne, fun hmem => hseen (List.mem_cons_of_mem _ hmem)⟩

omit cfg in
theorem cleanScopes_mem {seen scopes : List GoString} {scope : GoString}
    (h : scope ∈ cleanScopes seen scopes) : ∃ raw ∈ scopes, scope = trimSpace raw := by
  induction scopes generalizing seen with
  | nil => cases h
  | cons raw scopes ih =>
    rw [cleanScopes] at h
    split_ifs at h with hskip
    · obtain ⟨raw', hmem, hscope⟩ := ih h
      exact ⟨raw', List.mem_cons_of_mem _ hmem, hscope⟩
    · rcases List.mem_cons.mp h with rfl | h
      · exact ⟨raw, List.mem_cons_self, rfl⟩
      · obtain ⟨raw', hmem, hscope⟩ := ih h
        exact ⟨raw', List.mem_cons_of_mem _ hmem, hscope⟩

omit cfg in
theorem normalizeOIDCScopes_ok {scopes normalized : List GoString}
    (h : normalizeOIDCScopes scopes = .ok normalized) :
    lit "openid" ∈ normalized ∧
      normalized = cleanScopes [] (if scopes.length = 0 then oidcDefaultScopes else scopes) := by
  unfold normalizeOIDCScopes at h
  dsimp only at h
  by_cases hopenid : (cleanScopes [] (if scopes.length = 0 then oidcDefaultScopes else
      scopes)).contains (lit "openid")
  · rw [if_pos hopenid] at h
    cases h
    exact ⟨List.contains_iff_mem.mp hopenid, rfl⟩
  · rw [if_neg hopenid] at h
    cases h

omit cfg in
/-- Normalized scopes are kept. -/
theorem normalizeOIDCScopes_again {scopes normalized : List GoString}
    (h : normalizeOIDCScopes scopes = .ok normalized) :
    normalizeOIDCScopes normalized = .ok normalized := by
  obtain ⟨hopenid, hnormalized⟩ := normalizeOIDCScopes_ok h
  have hlength : ¬ normalized.length = 0 := by
    intro hzero
    rw [List.length_eq_zero_iff.mp hzero] at hopenid
    exact absurd hopenid List.not_mem_nil
  have hself : cleanScopes [] normalized = normalized := by
    obtain ⟨hnodup, hclean⟩ :=
      cleanScopes_clean [] (if scopes.length = 0 then oidcDefaultScopes else scopes)
    rw [hnormalized]
    exact cleanScopes_self hnodup hclean
  unfold normalizeOIDCScopes
  rw [if_neg hlength, hself]
  exact if_pos (List.contains_iff_mem.mpr hopenid)

omit cfg in
/-- Valid scopes are normalized to valid ones. -/
theorem normalizeOIDCScopes_valid {scopes normalized : List GoString}
    (h : normalizeOIDCScopes scopes = .ok normalized)
    (hvalid : ∀ scope ∈ scopes, validString scope) : ∀ scope ∈ normalized, validString scope := by
  obtain ⟨-, hnormalized⟩ := normalizeOIDCScopes_ok h
  intro scope hscope
  rw [hnormalized] at hscope
  obtain ⟨raw, hraw, rfl⟩ := cleanScopes_mem hscope
  apply validString_trimSpace
  split_ifs at hraw
  · have hdefault : ∀ raw ∈ oidcDefaultScopes, validString raw := by decide
    exact hdefault raw hraw
  · exact hvalid raw hraw

omit cfg in
/-- They come back from the row as they are. -/
theorem jsonText_scopes {scopes : List GoString} (h : ∀ scope ∈ scopes, validString scope) :
    scopes.map jsonText = scopes :=
  (List.map_congr_left fun scope hscope => jsonText_of_valid (h scope hscope)).trans
    (List.map_id' scopes)

/-- What a provider that passes its check becomes. -/
theorem normalizeProvider_ok {provider normalized : OIDCProvider}
    (h : normalizeProvider cfg provider = .ok normalized) :
    ∃ issuer scopes, normalizeIssuer cfg provider.issuer = .ok issuer ∧
      normalizeOIDCScopes provider.scopes = .ok scopes ∧
      normalized = { provider with
        slug := toLower cfg.u (trimSpace provider.slug)
        displayName := trimSpace provider.displayName
        issuer
        clientID := trimSpace provider.clientID
        scopes } := by
  unfold normalizeProvider at h
  dsimp only at h
  split_ifs at h
  · split at h
    · cases h
    · cases h
  · split at h
    · cases h
    · rename_i issuer hissuer
      split at h
      · cases h
      · rename_i scopes hscopes
        cases h
        exact ⟨issuer, scopes, hissuer, hscopes, rfl⟩

/-- What an edit writes. -/
theorem editProvider_ok {req : OIDCProviderInput} {sealNonce : List UInt8}
    {provider written : OIDCProvider} {secret : Option (List UInt8)}
    (h : editProvider cfg req sealNonce provider = .ok (written, secret)) :
    (∀ slug ∈ req.slug, toLower cfg.u (trimSpace slug) = provider.slug) ∧
      normalizeProvider cfg (mergeProvider req provider) = .ok written ∧
      sealClientSecret cfg sealNonce req.clientSecret = .ok secret := by
  unfold editProvider at h
  split_ifs at h with hslug
  split at h
  · cases h
  · rename_i normalized hnormalized
    split at h
    · cases h
    · rename_i sealed hsealed
      cases h
      refine ⟨fun slug hmem => ?_, hnormalized, hsealed⟩
      rw [Option.mem_def.mp hmem] at hslug
      simpa using hslug

theorem sealClientSecret_ok {sealNonce : List UInt8} {value : Option GoString}
    {secret : Option (List UInt8)} (h : sealClientSecret cfg sealNonce value = .ok secret) :
    secret = if suppliesSecret value then
      some (cfg.crypto.gcmSeal sealNonce (value.getD [])) else none := by
  unfold sealClientSecret at h
  cases value with
  | none =>
    cases h
    rfl
  | some value =>
    dsimp only at h
    split_ifs at h with hempty havailable
    · cases h
      rw [hempty]
      rfl
    · have hsupplies : suppliesSecret (some value) = true := by simpa [suppliesSecret] using hempty
      rw [hsupplies]
      unfold SecretBox.Seal at h
      split_ifs at h
      cases h
      rfl

/-! ## The call -/

/-- Where a call of `Update` stands: the next statement, and what it needs for it. -/
inductive ProviderStage where
  | read
  | write (provider : OIDCProvider)
  | reread (id : Uuid)
  | done (result : Except ServiceError OIDCProvider)

/-- A call of `Update`, with the nonce that `Seal` will draw. -/
structure ProviderEdit where
  id : GoString
  req : OIDCProviderInput
  sealNonce : List UInt8
  stage : ProviderStage := .read

/-- The next statement of the call, at a time of the database. -/
def nextProviderStep (s : OIDCStore) (edit : ProviderEdit) (now : Instant) :
    Option (OIDCStore × ProviderEdit) :=
  match edit.stage with
  | .read =>
    match s.GetOIDCProvider edit.id with
    | .error e => some (s, { edit with stage := .done (.error e) })
    | .ok provider => some (s, { edit with stage := .write provider })
  | .write provider =>
    match editProvider cfg edit.req edit.sealNonce provider with
    | .error e => some (s, { edit with stage := .done (.error e) })
    | .ok (provider, secret) =>
      match s.UpdateOIDCProvider provider secret now with
      | (.error e, s) => some (s, { edit with stage := .done (.error e) })
      | (.ok (), s) => some (s, { edit with stage := .reread provider.id })
  | .reread id => some (s, { edit with stage := .done (s.getProvider id) })
  | .done _ => none

/-- The calls of `Update` on one database. -/
def providerEdits : Process OIDCStore ProviderEdit Instant where
  step := nextProviderStep cfg

/-! ## The call as an edit of one row -/

/-- A provider without the count of its identities, which no edit looks at. -/
def uncounted (provider : OIDCProvider) : OIDCProvider := { provider with identityCount := 0 }

/-- What an edit reads of a row. -/
def readProvider (row : OIDCProviderRow) : OIDCProvider := uncounted (({} : OIDCStore).toProvider row)

/-- The row that an edit makes of one, by a provider that it has read. -/
def WritesProvider (asks : OIDCProviderInput × List UInt8) (seen : OIDCProvider)
    (row row' : OIDCProviderRow) : Prop :=
  ∃ provider written secret now, uncounted provider = seen ∧
    editProvider cfg asks.1 asks.2 provider = .ok (written, secret) ∧
    row' = OIDCStore.updatedProvider written secret now row

/-- How far a call of `Update` has come. -/
def ProviderStage.phase : ProviderStage → Phase OIDCProvider
  | .read => .fresh
  | .write provider => .ready (uncounted provider)
  | .reread _ => .written
  | .done (.ok _) => .written
  | .done (.error _) => .failed

/-- The call is about the provider. -/
def ProviderEdit.About (id : Uuid) (edit : ProviderEdit) : Prop :=
  LinkStore.uuidParam edit.id = .ok id ∧ ∀ provider, edit.stage = .write provider → provider.id = id

/-- The call reads its provider, or fails. -/
theorem read_step {id : Uuid} {s s' : OIDCStore} {edit edit' : ProviderEdit} {now : Instant}
    (hid : LinkStore.uuidParam edit.id = .ok id) (hstage : edit.stage = .read)
    (h : nextProviderStep cfg s edit now = some (s', edit')) : s' = s ∧
      ((∃ e, edit' = { edit with stage := .done (.error e) }) ∨
        ∃ row, s.providerRow id = some row ∧
          edit' = { edit with stage := .write (s.toProvider row) }) := by
  unfold nextProviderStep OIDCStore.GetOIDCProvider OIDCStore.getProvider at h
  rw [hstage, hid] at h
  dsimp only at h
  cases hrow : s.providerRow id with
  | none =>
    rw [hrow] at h
    cases h
    exact ⟨rfl, .inl ⟨_, rfl⟩⟩
  | some row =>
    rw [hrow] at h
    cases h
    exact ⟨rfl, .inr ⟨row, rfl, rfl⟩⟩

/-- It writes the row, or fails. -/
theorem write_step {s s' : OIDCStore} {edit edit' : ProviderEdit} {now : Instant}
    {provider : OIDCProvider} (hstage : edit.stage = .write provider)
    (h : nextProviderStep cfg s edit now = some (s', edit')) :
    (s' = s ∧ ∃ e, edit' = { edit with stage := .done (.error e) }) ∨
      ∃ written secret row, editProvider cfg edit.req edit.sealNonce provider =
          .ok (written, secret) ∧
        s.providerRow written.id = some row ∧
        s'.providerRow written.id = some (OIDCStore.updatedProvider written secret now row) ∧
        edit' = { edit with stage := .reread written.id } := by
  unfold nextProviderStep at h
  rw [hstage] at h
  dsimp only at h
  split at h
  · cases h
    exact .inl ⟨rfl, _, rfl⟩
  · rename_i written secret hedit
    split at h
    · rename_i e s₁ hupdate
      cases h
      exact .inl ⟨OIDCStore.UpdateOIDCProvider_error hupdate, _, rfl⟩
    · rename_i s₁ hupdate
      cases h
      obtain ⟨row, hrow, hrow'⟩ := OIDCStore.UpdateOIDCProvider_ok hupdate
      exact .inr ⟨written, secret, row, hedit, hrow, hrow', rfl⟩

/-- The provider that is written is the one that was read. -/
theorem editProvider_id {req : OIDCProviderInput} {sealNonce : List UInt8}
    {provider written : OIDCProvider} {secret : Option (List UInt8)}
    (h : editProvider cfg req sealNonce provider = .ok (written, secret)) :
    written.id = provider.id := by
  obtain ⟨-, hnormalized, -⟩ := editProvider_ok cfg h
  obtain ⟨issuer, scopes, -, -, rfl⟩ := normalizeProvider_ok cfg hnormalized
  rfl

/-- The columns of a row that an edit has written. -/
structure ProviderWritten (asks : OIDCProviderInput × List UInt8) (seen : OIDCProvider)
    (row row' : OIDCProviderRow) : Prop where
  slug : row'.slug = row.slug
  asked : ∀ slug ∈ asks.1.slug, toLower cfg.u (trimSpace slug) = seen.slug
  displayName : row'.displayName = trimSpace (asks.1.displayName.getD seen.displayName)
  issuer : normalizeIssuer cfg (asks.1.issuer.getD seen.issuer) = .ok row'.issuer
  clientID : row'.clientID = trimSpace (asks.1.clientID.getD seen.clientID)
  scopes : ∃ scopes, normalizeOIDCScopes (asks.1.scopes.getD seen.scopes) = .ok scopes ∧
    row'.scopes = scopes.map jsonText
  autoProvision : row'.autoProvision = asks.1.autoProvision.getD seen.autoProvision
  enabled : row'.enabled = asks.1.enabled.getD seen.enabled
  clientSecret : row'.clientSecret = if suppliesSecret asks.1.clientSecret then
    some (cfg.crypto.gcmSeal asks.2 (asks.1.clientSecret.getD [])) else row.clientSecret

theorem WritesProvider.written {asks : OIDCProviderInput × List UInt8} {seen : OIDCProvider}
    {row row' : OIDCProviderRow} (h : WritesProvider cfg asks seen row row') :
    ProviderWritten cfg asks seen row row' := by
  obtain ⟨provider, written, secret, now, rfl, hedit, rfl⟩ := h
  obtain ⟨hslug, hnormalized, hsecret⟩ := editProvider_ok cfg hedit
  obtain ⟨issuer, scopes, hissuer, hscopes, rfl⟩ := normalizeProvider_ok cfg hnormalized
  refine ⟨rfl, hslug, rfl, hissuer, rfl, ⟨scopes, hscopes, rfl⟩, rfl, rfl, ?_⟩
  show (if secret.isSome then secret else row.clientSecret) = _
  rw [sealClientSecret_ok cfg hsecret]
  cases suppliesSecret asks.1.clientSecret with
  | false => rfl
  | true => rfl

theorem providerEdits_step {id : Uuid} {s s' : OIDCStore} {edit edit' : ProviderEdit}
    {now : Instant} (habout : edit.About id)
    (h : (providerEdits cfg).step s edit now = some (s', edit')) :
    edit'.About id ∧ (edit'.req, edit'.sealNonce) = (edit.req, edit.sealNonce) ∧
      EditStep (fun _ => readProvider) (WritesProvider cfg) (edit.req, edit.sealNonce) edit.stage.phase
        (s.providerRow id) edit'.stage.phase (s'.providerRow id) := by
  obtain ⟨hid, hprovider⟩ := habout
  have hstep : nextProviderStep cfg s edit now = some (s', edit') := h
  cases hstage : edit.stage with
  | read =>
    obtain ⟨rfl, ⟨e, rfl⟩ | ⟨row, hrow, rfl⟩⟩ := read_step cfg hid hstage hstep
    · exact ⟨⟨hid, nofun⟩, rfl, .fail _ _⟩
    · refine ⟨⟨hid, ?_⟩, rfl, ?_⟩
      · rintro provider heq
        cases heq
        show row.id = id
        simpa using List.find?_some hrow
      · rw [hrow]
        exact .load row _ (.inr rfl)
  | write provider =>
    rcases write_step cfg hstage hstep with
      ⟨rfl, e, rfl⟩ | ⟨written, secret, row, hedit, hrow, hrow', rfl⟩
    · exact ⟨⟨hid, nofun⟩, rfl, .fail _ _⟩
    · have hwritten : written.id = id :=
        (editProvider_id cfg hedit).trans (hprovider provider hstage)
      rw [hwritten] at hrow hrow'
      refine ⟨⟨hid, nofun⟩, rfl, ?_⟩
      rw [hrow, hrow']
      exact .write _ row _ ⟨provider, written, secret, now, rfl, hedit, rfl⟩
  | reread id' =>
    unfold nextProviderStep at hstep
    rw [hstage] at hstep
    cases hstep
    refine ⟨⟨hid, nofun⟩, rfl, ?_⟩
    cases s.getProvider id' with
    | error e => exact .fail _ _
    | ok provider => exact .after _
  | done result =>
    unfold nextProviderStep at hstep
    rw [hstage] at hstep
    cases hstep

/-- A call of `Update` edits the row of its provider. -/
def providerUpdates (id : Uuid) :
    EditProcess (providerEdits cfg) (fun _ => readProvider) (WritesProvider cfg) where
  row s := s.providerRow id
  asks edit := (edit.req, edit.sealNonce)
  phase edit := edit.stage.phase
  Sound edit := edit.About id
  step _ _ _ _ _ := providerEdits_step cfg

end

end Purels.Service
