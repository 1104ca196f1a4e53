import Purels.Lib.Tables
import Purels.Service.OidcSignIn

/-!
# One callback for each authorization request

Runs of any number of calls of `Start` and `Callback`, whatever the identity provider
answers.

* `OIDCEffect` and `oidcCalls_effect`: what a step changes.
* `RequestsOnce`, `HoldsSpent` and `HoldApart`: a request that is held by a call, or has led
  to an account, is spent, and no two calls hold the same one.
* `ClaimBound`, `Bound` and `CallBound`: what a call has checked so far.
* `callback_single_use`, the run theorem.
-/

namespace Purels.Properties

open Go Security Store Service Lib OIDCStore

/-! ## Effects -/

/-- The claimed request that a call carries. -/
def held : OIDCCall → Option ClaimedCallback
  | .secret callback | .exchange callback _ | .verify callback _ => some callback
  | _ => none

/-- What a step of `call` can leave, and where it leaves the call. -/
inductive OIDCEffect (w : OIDCWorld) (call : OIDCCall) : OIDCWorld → OIDCCall → Prop
  /-- A read, a refused statement, or a write on the cache. -/
  | quiet {w' : OIDCWorld} {call' : OIDCCall} (hstore : w'.store = w.store)
      (hresolutions : w'.resolutions = w.resolutions)
      (hheld : held call' = none ∨ held call' = held call) : OIDCEffect w call w' call'
  | swept {now : Instant} {call' : OIDCCall} (hheld : held call' = none) :
      OIDCEffect w call { w with store := w.store.sweepRequests now } call'
  | inserted {store : OIDCStore} {call' : OIDCCall} (row : OIDCRequestRow)
      (hid : row.id = w.store.nextID) (hrequests : store.requests = w.store.requests ++ [row])
      (hnext : store.nextID = w.store.nextID + 1) (hproviders : store.providers = w.store.providers)
      (hidentities : store.identities = w.store.identities) (hheld : held call' = none) :
      OIDCEffect w call { w with store } call'
  | claimed {hash : List UInt8} {now : Instant} {call' : OIDCCall} (row : OIDCRequestRow)
      (hrow : w.store.requests.find? (claimable hash now) = some row)
      (hheld : ∀ callback, held call' = some callback → callback.request = row) :
      OIDCEffect w call { w with store := (w.store.ClaimOIDCRequest hash now).2 } call'
  | resolved {call' : OIDCCall} {raw : GoString} (callback : ClaimedCallback) (token : IDToken)
      (claims : OIDCClaims) (hcall : call = .verify callback raw)
      (htoken : tokenChecked callback.provider callback.request token = .ok claims)
      (hheld : held call' = none) :
      OIDCEffect w call
        { w with resolutions := w.resolutions ++ [callback.resolution token claims] } call'

section

variable {cfg : OIDCConfig} {now : Instant} {answer : Answer} {w w' : OIDCWorld}
  {call call' : OIDCCall}

/-- A step that writes nothing and ends with no request. -/
theorem oidcEffect_read (hheld : held call' = none) : OIDCEffect w call w call' :=
  .quiet rfl rfl (.inl hheld)

/-- Reading a discovery document touches the cache only. -/
theorem discover_same (provider : OIDCProvider) (answer : Answer) (w : OIDCWorld) :
    (discover provider answer w).2.store = w.store ∧
      (discover provider answer w).2.resolutions = w.resolutions := by
  unfold discover
  cases answer.discovery with
  | error e =>
    dsimp only
    split
    · exact ⟨rfl, rfl⟩
    · split_ifs <;> exact ⟨rfl, rfl⟩
  | ok discovered =>
    dsimp only
    split
    · exact ⟨rfl, rfl⟩
    · split_ifs <;> exact ⟨rfl, rfl⟩

theorem effect_startDiscoverStep (provider : OIDCProvider) (draw : StartDraw) :
    OIDCEffect w call (startDiscoverStep cfg provider draw now answer w).1
      (startDiscoverStep cfg provider draw now answer w).2 := by
  have hsame := discover_same provider answer w
  unfold startDiscoverStep
  cases hdiscover : discover provider answer w with
  | mk result v =>
    rw [hdiscover] at hsame
    cases result with
    | error e => exact .quiet hsame.1 hsame.2 (.inl rfl)
    | ok entry =>
      dsimp only
      split <;> exact .quiet hsame.1 hsame.2 (.inl rfl)

theorem effect_discoverStep (params : CallbackParams) (provider : OIDCProvider) :
    OIDCEffect w call (discoverStep params provider answer w).1
      (discoverStep params provider answer w).2 := by
  have hsame := discover_same provider answer w
  unfold discoverStep
  cases hdiscover : discover provider answer w with
  | mk result v =>
    rw [hdiscover] at hsame
    cases result with
    | error e => exact .quiet hsame.1 hsame.2 (.inl rfl)
    | ok entry => exact .quiet hsame.1 hsame.2 (.inl rfl)

theorem effect_startInsertStep (pending : PendingStart) :
    OIDCEffect w call (startInsertStep pending w).1 (startInsertStep pending w).2 := by
  unfold startInsertStep insertRequest
  split_ifs
  · exact oidcEffect_read rfl
  · exact oidcEffect_read rfl
  · exact oidcEffect_read rfl
  · exact .inserted _ rfl rfl rfl rfl rfl rfl

theorem held_claimedCallback {params : CallbackParams} {provider : OIDCProvider}
    {entry : CachedProvider} {request : OIDCRequestRow} {claimedAt : Instant}
    {callback : ClaimedCallback}
    (h : held (claimedCallback cfg params provider entry request claimedAt) = some callback) :
    callback.params = params ∧ callback.provider = provider ∧ callback.request = request ∧
      callback.claimedAt = claimedAt ∧ request.providerID = provider.id := by
  unfold claimedCallback at h
  by_cases hprovider : request.providerID = provider.id
  · rw [if_neg (not_not.mpr hprovider)] at h
    cases hopen : cfg.box.Open cfg.crypto request.codeVerifier with
    | none =>
      rw [hopen] at h
      cases h
    | some verifier =>
      -- with or without a client secret it carries the same request
      rw [hopen, apply_ite held] at h
      obtain rfl := Option.some.inj ((ite_self (some _)).symm.trans h)
      exact ⟨rfl, rfl, rfl, rfl, hprovider⟩
  · rw [if_pos hprovider] at h
    cases h

theorem effect_claimRequestStep (params : CallbackParams) (provider : OIDCProvider)
    (entry : CachedProvider) :
    OIDCEffect w call (claimRequestStep cfg params provider entry now w).1
      (claimRequestStep cfg params provider entry now w).2 := by
  cases hfind : w.store.requests.find? (claimable (cfg.crypto.sha256 params.state) now) with
  | none =>
    have hstore : (w.store.ClaimOIDCRequest (cfg.crypto.sha256 params.state) now).2 = w.store := by
      unfold ClaimOIDCRequest
      rw [map_if_of_find?_none hfind]
    simp only [claimRequestStep, ClaimOIDCRequest, hfind] at hstore ⊢
    rw [hstore]
    exact oidcEffect_read rfl
  | some row =>
    have hclaimed : OIDCEffect w call _ (claimedCallback cfg params provider entry row now) :=
      .claimed row hfind fun callback hheld => (held_claimedCallback hheld).2.2.1
    simpa only [claimRequestStep, ClaimOIDCRequest, hfind] using hclaimed

theorem held_secretStep (callback : ClaimedCallback) (w : OIDCWorld) :
    held (secretStep cfg callback w) = none ∨
      held (secretStep cfg callback w) = some callback := by
  unfold secretStep
  split
  · exact .inl rfl
  · split
    · exact .inl rfl
    · exact .inr rfl

theorem held_exchangeStep (callback : ClaimedCallback) (answer : Answer) :
    held (exchangeStep callback answer) = none ∨
      held (exchangeStep callback answer) = some callback := by
  unfold exchangeStep
  split
  · exact .inl rfl
  · exact .inl rfl
  · split_ifs
    · exact .inl rfl
    · exact .inr rfl

theorem effect_verifyStep (callback : ClaimedCallback) {raw : GoString}
    (hcall : call = .verify callback raw) :
    OIDCEffect w call (verifyStep callback answer w).1 (verifyStep callback answer w).2 := by
  unfold verifyStep
  split
  · exact oidcEffect_read rfl
  · split
    · exact oidcEffect_read rfl
    · next hchecked => exact .resolved callback _ _ hcall hchecked rfl

/-- Every step of a call has one of the effects. -/
theorem oidcStep_effect (hstep : oidcStep cfg now answer w call = some (w', call')) :
    OIDCEffect w call w' call' := by
  cases call with
  | idle | done => simp [oidcStep] at hstep
  | startLookup | lookup =>
    obtain ⟨rfl, rfl⟩ := Prod.mk.inj (Option.some.inj hstep)
    refine oidcEffect_read ?_
    split <;> rfl
  | startDiscover =>
    obtain ⟨rfl, rfl⟩ := Prod.mk.inj (Option.some.inj hstep)
    exact effect_startDiscoverStep ..
  | startSweep =>
    obtain ⟨rfl, rfl⟩ := Prod.mk.inj (Option.some.inj hstep)
    exact .swept rfl
  | startInsert =>
    obtain ⟨rfl, rfl⟩ := Prod.mk.inj (Option.some.inj hstep)
    exact effect_startInsertStep ..
  | discover =>
    obtain ⟨rfl, rfl⟩ := Prod.mk.inj (Option.some.inj hstep)
    exact effect_discoverStep ..
  | claim =>
    obtain ⟨rfl, rfl⟩ := Prod.mk.inj (Option.some.inj hstep)
    exact effect_claimRequestStep ..
  | secret =>
    obtain ⟨rfl, rfl⟩ := Prod.mk.inj (Option.some.inj hstep)
    exact .quiet rfl rfl (held_secretStep ..)
  | exchange =>
    obtain ⟨rfl, rfl⟩ := Prod.mk.inj (Option.some.inj hstep)
    exact .quiet rfl rfl (held_exchangeStep ..)
  | verify =>
    obtain ⟨rfl, rfl⟩ := Prod.mk.inj (Option.some.inj hstep)
    exact effect_verifyStep _ rfl

theorem held_callRequest (request : OIDCCallRequest) : held (request.call cfg) = none := by
  unfold OIDCCallRequest.call
  cases request <;> dsimp only <;> split_ifs <;> rfl

/-- So does every step of a process. -/
theorem oidcCalls_effect {a : OIDCAction}
    (hstep : (oidcCalls cfg).step w call a = some (w', call')) : OIDCEffect w call w' call' := by
  cases a with
  | start request =>
    simp only [oidcCalls] at hstep
    split_ifs at hstep
    obtain ⟨rfl, rfl⟩ := Prod.mk.inj (Option.some.inj hstep)
    exact oidcEffect_read (held_callRequest request)
  | next now answer => exact oidcStep_effect hstep
  | fail =>
    simp only [oidcCalls] at hstep
    split_ifs at hstep
    obtain ⟨rfl, rfl⟩ := Prod.mk.inj (Option.some.inj hstep)
    exact oidcEffect_read rfl

/-! ## Spent requests -/

/-- The request has been stored, and what is left of it is consumed. -/
def Spent (store : OIDCStore) (id : Nat) : Prop :=
  id < store.nextID ∧ ∀ row ∈ store.requests, row.id = id → row.consumedAt ≠ none

/-- What holds of the requests and of the accounts they have led to. -/
structure RequestsOnce (w : OIDCWorld) : Prop where
  keys : (w.store.requests.map (·.id)).Nodup
  ids : ∀ row ∈ w.store.requests, row.id < w.store.nextID
  once : (w.resolutions.map (·.request.id)).Nodup
  spent : ∀ r ∈ w.resolutions, Spent w.store r.request.id

/-- A call holds a request that is spent and has led to no account yet. -/
def HoldsSpent (w : OIDCWorld) (call : OIDCCall) : Prop :=
  ∀ callback, held call = some callback →
    Spent w.store callback.request.id ∧ callback.request.id ∉ w.resolutions.map (·.request.id)

/-- Two calls hold different requests. -/
def HoldApart (l m : OIDCCall) : Prop :=
  ∀ callback callback', held l = some callback → held m = some callback' →
    callback.request.id ≠ callback'.request.id

/-- What is spent stays spent. -/
theorem Spent.step {id : Nat} (h : Spent w.store id) (heffect : OIDCEffect w call w' call') :
    Spent w'.store id := by
  obtain ⟨hlt, hrows⟩ := h
  cases heffect with
  | quiet hstore => exact hstore ▸ ⟨hlt, hrows⟩
  | swept => exact ⟨hlt, fun row hrow => hrows row (List.mem_filter.mp hrow).1⟩
  | @inserted store _ row hid hrequests hnext =>
    have hnext : id < store.nextID := by omega
    refine ⟨hnext, fun new hnew hsame => ?_⟩
    rw [hrequests] at hnew
    rcases List.mem_append.mp hnew with hold | hnew
    · exact hrows new hold hsame
    · rw [List.mem_singleton.mp hnew] at hsame
      omega
  | claimed row hrow =>
    refine ⟨hlt, fun new hnew hsame => ?_⟩
    obtain ⟨old, hold, rfl⟩ := List.mem_map.mp hnew
    split_ifs at hsame ⊢
    · exact Option.some_ne_none _
    · exact hrows old hold hsame
  | resolved => exact ⟨hlt, hrows⟩

/-- A claim finds a request that was not spent. -/
theorem not_spent_of_claimable {hash : List UInt8} {row : OIDCRequestRow}
    (hrow : w.store.requests.find? (claimable hash now) = some row) : ¬ Spent w.store row.id := by
  intro hspent
  have hclaimable := List.find?_some hrow
  simp only [claimable, Bool.and_eq_true, Option.isNone_iff_eq_none] at hclaimable
  exact hspent.2 row (List.mem_of_find?_eq_some hrow) rfl hclaimable.1.2

/-- It leaves it spent. -/
theorem RequestsOnce.spent_claimed (h : RequestsOnce w) {hash : List UInt8} {row : OIDCRequestRow}
    (hrow : w.store.requests.find? (claimable hash now) = some row) :
    Spent (w.store.ClaimOIDCRequest hash now).2 row.id := by
  have hmem := List.mem_of_find?_eq_some hrow
  refine ⟨h.ids row hmem, fun new hnew hsame => ?_⟩
  obtain ⟨old, hold, rfl⟩ := List.mem_map.mp hnew
  by_cases hclaimable : claimable hash now old
  · rw [if_pos hclaimable]
    exact Option.some_ne_none _
  · rw [if_neg hclaimable] at hsame
    obtain rfl := List.inj_on_of_nodup_map h.keys hold hmem hsame
    exact absurd (List.find?_some hrow) hclaimable

/-- The keys of the requests stay unique and below the next one. -/
theorem RequestsOnce.keys_step (h : RequestsOnce w) (heffect : OIDCEffect w call w' call') :
    (w'.store.requests.map (·.id)).Nodup ∧ ∀ row ∈ w'.store.requests, row.id < w'.store.nextID := by
  cases heffect with
  | quiet hstore => exact hstore ▸ ⟨h.keys, h.ids⟩
  | swept =>
    refine ⟨h.keys.sublist (List.filter_sublist.map _), fun row hrow => ?_⟩
    exact h.ids row (List.mem_filter.mp hrow).1
  | inserted row hid hrequests hnext =>
    have hids : ∀ new ∈ w.store.requests ++ [row], new.id < w.store.nextID + 1 := by
      intro new hnew
      rcases List.mem_append.mp hnew with hold | hnew
      · have hlt := h.ids new hold
        omega
      · rw [List.mem_singleton.mp hnew]
        omega
    refine ⟨?_, by rw [hrequests, hnext]; exact hids⟩
    rw [hrequests, List.map_append, List.nodup_append]
    refine ⟨h.keys, by simp, fun id hid' other hother => ?_⟩
    obtain ⟨old, hold, rfl⟩ := List.mem_map.mp hid'
    have hlt := h.ids old hold
    have hother : other = row.id := by simpa using hother
    omega
  | claimed row hrow =>
    refine ⟨nodup_keys_map h.keys fun old _ => ?_, fun new hnew => ?_⟩
    · split_ifs <;> rfl
    · obtain ⟨old, hold, rfl⟩ := List.mem_map.mp hnew
      have hid := h.ids old hold
      split_ifs <;> exact hid
  | resolved => exact ⟨h.keys, h.ids⟩

/-- The step of a call keeps what holds of the requests and of the one it has. -/
theorem RequestsOnce.step (h : RequestsOnce w) (hcall : HoldsSpent w call) (heffect : OIDCEffect w call w' call') :
    RequestsOnce w' ∧ HoldsSpent w' call' := by
  obtain ⟨hkeys, hids⟩ := h.keys_step heffect
  have hspent : ∀ r ∈ w.resolutions, Spent w'.store r.request.id := fun r hr =>
    (h.spent r hr).step heffect
  have hnone : held call' = none → HoldsSpent w' call' := by
    intro hheld callback hcallback
    rw [hheld] at hcallback
    cases hcallback
  cases heffect with
  | quiet hstore hresolutions hheld =>
    refine ⟨⟨hkeys, hids, by rw [hresolutions]; exact h.once, by rw [hresolutions]; exact hspent⟩, ?_⟩
    rcases hheld with hheld | hheld
    · exact hnone hheld
    · intro callback hcallback
      rw [hstore, hresolutions]
      exact hcall callback (hheld ▸ hcallback)
  | swept hheld => exact ⟨⟨hkeys, hids, h.once, hspent⟩, hnone hheld⟩
  | inserted row hid hrequests hnext hproviders hidentities hheld =>
    exact ⟨⟨hkeys, hids, h.once, hspent⟩, hnone hheld⟩
  | claimed row hrow hheld =>
    refine ⟨⟨hkeys, hids, h.once, hspent⟩, fun callback hcallback => ?_⟩
    rw [hheld callback hcallback]
    refine ⟨h.spent_claimed hrow, fun hmem => ?_⟩
    -- a request that has led to an account was spent before the claim
    obtain ⟨r, hr, hsame⟩ := List.mem_map.mp hmem
    exact not_spent_of_claimable hrow (hsame ▸ h.spent r hr)
  | resolved callback token claims hcallback htoken hheld =>
    obtain ⟨hspentHeld, hfresh⟩ := hcall callback (hcallback ▸ rfl)
    refine ⟨⟨hkeys, hids, ?_, ?_⟩, hnone hheld⟩
    · rw [List.map_append, List.nodup_append]
      refine ⟨h.once, by simp, fun id hid other hother hsame => hfresh ?_⟩
      have hother : other = callback.request.id := List.mem_singleton.mp hother
      exact hother ▸ hsame ▸ hid
    · intro r hr
      rcases List.mem_append.mp hr with hold | hnew
      · exact hspent r hold
      · rw [List.mem_singleton.mp hnew]
        exact hspentHeld

/-- It keeps what holds of the requests of the other calls. -/
theorem HoldsSpent.step_other {other : OIDCCall} (hother : HoldsSpent w other)
    (hapart : HoldApart call other) (heffect : OIDCEffect w call w' call') :
    HoldsSpent w' other ∧ HoldApart call' other := by
  refine ⟨fun callback hcallback => ?_, fun callback callback' hcallback hcallback' => ?_⟩
  · obtain ⟨hspent, hfresh⟩ := hother callback hcallback
    refine ⟨hspent.step heffect, ?_⟩
    cases heffect with
    | quiet hstore hresolutions => rwa [hresolutions]
    | swept | inserted | claimed => exact hfresh
    | resolved mine token claims hmine =>
      rw [List.map_append, List.mem_append]
      rintro (hold | hnew)
      · exact hfresh hold
      · have hsame : callback.request.id = mine.request.id := List.mem_singleton.mp hnew
        exact hapart mine callback (hmine ▸ rfl) hcallback hsame.symm
  · cases heffect with
    | quiet hstore hresolutions hheld =>
      rcases hheld with hheld | hheld
      · rw [hheld] at hcallback
        cases hcallback
      · exact hapart callback callback' (hheld ▸ hcallback) hcallback'
    | swept hheld | inserted _ _ _ _ _ _ hheld | resolved _ _ _ _ _ hheld =>
      rw [hheld] at hcallback
      cases hcallback
    | claimed row hrow hheld =>
      rw [hheld callback hcallback]
      intro hsame
      exact not_spent_of_claimable hrow (hsame ▸ (hother callback' hcallback').1)

end

/-! ## What a call has checked -/

/-- The slug of the callback names this enabled provider. -/
def Named (store : OIDCStore) (params : CallbackParams) (provider : OIDCProvider) : Prop :=
  ∃ row ∈ store.providers, row.enabled ∧ row.slug = params.slug ∧ provider = store.toProvider row

section

variable (cfg : OIDCConfig) (store : OIDCStore)
  (claimed : CallbackParams → OIDCProvider → OIDCRequestRow → Instant → Prop)

/-- The state of a callback is the one in its cookie. -/
structure Presented (params : CallbackParams) : Prop where
  state_ne : params.state ≠ []
  cookie : params.state = params.cookieState

/-- What a callback has checked once it has claimed a request. -/
structure ClaimBound (params : CallbackParams) (provider : OIDCProvider) (request : OIDCRequestRow)
    (claimedAt : Instant) : Prop extends Presented params where
  named : Named store params provider
  claimed : claimed params provider request claimedAt
  hash : request.stateHash = cfg.crypto.sha256 params.state
  unconsumed : request.consumedAt = none
  unexpired : claimedAt < request.expiresAt
  provider : request.providerID = provider.id

/-- What it has checked when it calls `resolveAccount`. -/
structure Bound (r : Resolution) : Prop
    extends ClaimBound cfg store claimed r.params r.provider r.request r.claimedAt where
  nonce : r.token.nonce = r.request.nonce
  subject : r.token.subject ≠ []
  claims : r.token.claims = .ok r.claims
  party : 1 < r.token.audience.length → r.claims.authorizedParty = r.provider.clientID

/-- What a call has checked so far. -/
def CallBound (w : OIDCWorld) : OIDCCall → Prop
  | .lookup params => Presented params
  | .discover params provider | .claim params provider _ =>
    Presented params ∧ Named store params provider
  | .secret callback | .exchange callback _ | .verify callback _ =>
    ClaimBound cfg store claimed callback.params callback.provider callback.request
      callback.claimedAt
  | .done (.resolving provider subject claims) =>
    ∃ r ∈ w.resolutions, r.provider = provider ∧ r.token.subject = subject ∧ r.claims = claims
  | _ => True

end

section

variable {cfg : OIDCConfig} {store : OIDCStore} {now : Instant} {answer : Answer}
  {w w' : OIDCWorld} {call call' : OIDCCall}
  {claimed claimed' : CallbackParams → OIDCProvider → OIDCRequestRow → Instant → Prop}

theorem ClaimBound.mono {params : CallbackParams} {provider : OIDCProvider}
    {request : OIDCRequestRow} {claimedAt : Instant}
    (hclaimed : ∀ params provider row now, claimed params provider row now →
      claimed' params provider row now)
    (h : ClaimBound cfg store claimed params provider request claimedAt) :
    ClaimBound cfg store claimed' params provider request claimedAt :=
  { h with claimed := hclaimed _ _ _ _ h.claimed }

theorem Bound.mono {r : Resolution}
    (hclaimed : ∀ params provider row now, claimed params provider row now →
      claimed' params provider row now)
    (h : Bound cfg store claimed r) : Bound cfg store claimed' r :=
  { h with toClaimBound := h.toClaimBound.mono hclaimed }

/-- What a call has checked stays so. -/
theorem CallBound.mono
    (hclaimed : ∀ params provider row now, claimed params provider row now →
      claimed' params provider row now)
    (hresolutions : w.resolutions ⊆ w'.resolutions) (h : CallBound cfg store claimed w call) :
    CallBound cfg store claimed' w' call := by
  cases call with
  | secret | exchange | verify => exact ClaimBound.mono hclaimed h
  | done result =>
    cases result with
    | resolving =>
      obtain ⟨r, hr, hsame⟩ := h
      exact ⟨r, hresolutions hr, hsame⟩
    | started | failed => trivial
  | _ => exact h

theorem callBound_request (request : OIDCCallRequest) :
    CallBound cfg store claimed w (request.call cfg) := by
  unfold OIDCCallRequest.call
  cases request with
  | start slug draw =>
    dsimp only
    split_ifs
    · trivial
    · trivial
  | callback params =>
    dsimp only
    split_ifs with hstate
    · trivial
    · rw [not_or, not_or, not_not] at hstate
      exact ⟨hstate.1, hstate.2.2⟩

theorem named_of_GetOIDCProviderBySlug {params : CallbackParams} {provider : OIDCProvider}
    (h : store.GetOIDCProviderBySlug params.slug = .ok provider) : Named store params provider := by
  unfold GetOIDCProviderBySlug at h
  split_ifs at h
  cases hfind : store.providers.find? fun row => row.slug == params.slug && row.enabled with
  | none =>
    rw [hfind] at h
    cases h
  | some row =>
    rw [hfind] at h
    obtain rfl := Except.ok.inj h
    have hrow := List.find?_some hfind
    simp only [Bool.and_eq_true, beq_iff_eq] at hrow
    exact ⟨row, List.mem_of_find?_eq_some hfind, hrow.2, hrow.1, rfl⟩

theorem tokenChecked_ok {provider : OIDCProvider} {request : OIDCRequestRow} {token : IDToken}
    {claims : OIDCClaims} (h : tokenChecked provider request token = .ok claims) :
    token.nonce = request.nonce ∧ token.subject ≠ [] ∧ token.claims = .ok claims ∧
      (1 < token.audience.length → claims.authorizedParty = provider.clientID) := by
  unfold tokenChecked at h
  split_ifs at h with hnonce hsubject
  cases hclaims : token.claims with
  | error e =>
    rw [hclaims] at h
    cases h
  | ok found =>
    rw [hclaims] at h
    dsimp only at h
    split_ifs at h with hparty
    obtain rfl := Except.ok.inj h
    exact ⟨not_not.mp hnonce, hsubject, rfl, fun hmany => not_not.mp fun hne => hparty ⟨hmany, hne⟩⟩

theorem callBound_startDiscoverStep (provider : OIDCProvider) (draw : StartDraw) :
    CallBound cfg store claimed w' (startDiscoverStep cfg provider draw now answer w).2 := by
  unfold startDiscoverStep
  split
  · trivial
  · split <;> trivial

theorem callBound_startInsertStep (pending : PendingStart) :
    CallBound cfg store claimed w' (startInsertStep pending w).2 := by
  unfold startInsertStep
  split <;> trivial

theorem callBound_discoverStep {params : CallbackParams} {provider : OIDCProvider}
    (h : Presented params ∧ Named store params provider) :
    CallBound cfg store claimed w' (discoverStep params provider answer w).2 := by
  unfold discoverStep
  split
  · trivial
  · exact h

theorem callBound_claimedCallback {params : CallbackParams} {provider : OIDCProvider}
    {entry : CachedProvider} {request : OIDCRequestRow} {claimedAt : Instant}
    (h : request.providerID = provider.id →
      ClaimBound cfg store claimed params provider request claimedAt) :
    CallBound cfg store claimed w (claimedCallback cfg params provider entry request claimedAt) := by
  unfold claimedCallback
  by_cases hprovider : request.providerID = provider.id
  · rw [if_neg (not_not.mpr hprovider)]
    split
    · trivial
    · dsimp only
      split_ifs
      · exact h hprovider
      · exact h hprovider
  · rw [if_pos hprovider]
    trivial

theorem callBound_claimRequestStep {params : CallbackParams} {provider : OIDCProvider}
    {entry : CachedProvider} (h : Presented params ∧ Named store params provider)
    (hclaimed : ∀ row,
      w.store.requests.find? (claimable (cfg.crypto.sha256 params.state) now) = some row →
      claimed params provider row now) :
    CallBound cfg store claimed w' (claimRequestStep cfg params provider entry now w).2 := by
  unfold claimRequestStep ClaimOIDCRequest
  cases hfind : w.store.requests.find? (claimable (cfg.crypto.sha256 params.state) now) with
  | none => trivial
  | some row =>
    refine callBound_claimedCallback fun hprovider => ?_
    have hrow := List.find?_some hfind
    simp only [claimable, Bool.and_eq_true, beq_iff_eq, Option.isNone_iff_eq_none,
      decide_eq_true_eq] at hrow
    exact { h.1 with
      named := h.2
      claimed := hclaimed row hfind
      hash := hrow.1.1
      unconsumed := hrow.1.2
      unexpired := hrow.2
      provider := hprovider }

theorem callBound_secretStep {callback : ClaimedCallback}
    (h : CallBound cfg store claimed w (.secret callback)) :
    CallBound cfg store claimed w (secretStep cfg callback w) := by
  unfold secretStep
  split
  · trivial
  · split
    · trivial
    · exact h

theorem callBound_exchangeStep {callback : ClaimedCallback} {secret : GoString}
    (h : CallBound cfg store claimed w (.exchange callback secret)) :
    CallBound cfg store claimed w (exchangeStep callback answer) := by
  unfold exchangeStep
  split
  · trivial
  · trivial
  · split_ifs
    · trivial
    · exact h

/-- A call that comes to an account leaves its entry. -/
theorem callBound_verifyStep (callback : ClaimedCallback) :
    CallBound cfg store claimed (verifyStep callback answer w).1
      (verifyStep callback answer w).2 := by
  unfold verifyStep
  split
  · trivial
  · split
    · trivial
    · exact ⟨_, List.mem_append_right _ List.mem_cons_self, rfl, rfl, rfl⟩

/-- No step writes a provider or an identity. -/
theorem OIDCEffect.same_providers (heffect : OIDCEffect w call w' call') :
    w'.store.providers = w.store.providers ∧ w'.store.identities = w.store.identities := by
  cases heffect with
  | quiet hstore => exact ⟨by rw [hstore], by rw [hstore]⟩
  | swept | claimed | resolved => exact ⟨rfl, rfl⟩
  | inserted row hid hrequests hnext hproviders hidentities => exact ⟨hproviders, hidentities⟩

/-- Only the last step of a callback adds to the resolutions. -/
theorem OIDCEffect.resolutions_subset (heffect : OIDCEffect w call w' call') :
    w.resolutions ⊆ w'.resolutions := by
  cases heffect with
  | quiet hstore hresolutions => exact hresolutions ▸ List.Subset.refl _
  | swept | claimed | inserted => exact List.Subset.refl _
  | resolved => exact List.subset_append_left _ _

theorem named_congr {params : CallbackParams} {provider : OIDCProvider}
    (hproviders : w.store.providers = store.providers)
    (hidentities : w.store.identities = store.identities) (h : Named w.store params provider) :
    Named store params provider := by
  obtain ⟨row, hrow, henabled, hslug, rfl⟩ := h
  refine ⟨row, hproviders ▸ hrow, henabled, hslug, ?_⟩
  simp only [toProvider, hidentities]

/-- A call that comes to an account has made every check. -/
theorem OIDCEffect.bound (h : CallBound cfg store claimed w call)
    (heffect : OIDCEffect w call w' call') {r : Resolution} (hr : r ∈ w'.resolutions) :
    r ∈ w.resolutions ∨ Bound cfg store claimed r := by
  cases heffect with
  | quiet hstore hresolutions => exact .inl (hresolutions ▸ hr)
  | swept | claimed | inserted => exact .inl hr
  | resolved callback token claims hcall htoken =>
    rcases List.mem_append.mp hr with hold | hnew
    · exact .inl hold
    · obtain rfl := List.mem_singleton.mp hnew
      subst hcall
      obtain ⟨hnonce, hsubject, hclaims, hparty⟩ := tokenChecked_ok htoken
      have hbound : ClaimBound cfg store claimed callback.params callback.provider
          callback.request callback.claimedAt := h
      exact .inr { hbound with
        nonce := hnonce
        subject := hsubject
        claims := hclaims
        party := hparty }

/-- A step adds to what its call has checked. -/
theorem CallBound.step (hproviders : w.store.providers = store.providers)
    (hidentities : w.store.identities = store.identities) (h : CallBound cfg store claimed w call)
    (hclaimed : ∀ params provider entry row, call = .claim params provider entry →
      w.store.requests.find? (claimable (cfg.crypto.sha256 params.state) now) = some row →
      claimed params provider row now)
    (hstep : oidcStep cfg now answer w call = some (w', call')) :
    CallBound cfg store claimed w' call' := by
  cases call with
  | idle | done => simp [oidcStep] at hstep
  | startLookup =>
    obtain ⟨rfl, rfl⟩ := Prod.mk.inj (Option.some.inj hstep)
    split <;> trivial
  | startDiscover =>
    obtain ⟨rfl, rfl⟩ := Prod.mk.inj (Option.some.inj hstep)
    exact callBound_startDiscoverStep ..
  | startSweep =>
    obtain ⟨rfl, rfl⟩ := Prod.mk.inj (Option.some.inj hstep)
    trivial
  | startInsert =>
    obtain ⟨rfl, rfl⟩ := Prod.mk.inj (Option.some.inj hstep)
    exact callBound_startInsertStep ..
  | lookup params =>
    obtain ⟨rfl, rfl⟩ := Prod.mk.inj (Option.some.inj hstep)
    cases hget : w.store.GetOIDCProviderBySlug params.slug with
    | error e => trivial
    | ok provider =>
      exact ⟨h, named_congr hproviders hidentities (named_of_GetOIDCProviderBySlug hget)⟩
  | discover =>
    obtain ⟨rfl, rfl⟩ := Prod.mk.inj (Option.some.inj hstep)
    exact callBound_discoverStep h
  | claim params provider entry =>
    obtain ⟨rfl, rfl⟩ := Prod.mk.inj (Option.some.inj hstep)
    exact callBound_claimRequestStep h fun row => hclaimed params provider entry row rfl
  | secret =>
    obtain ⟨rfl, rfl⟩ := Prod.mk.inj (Option.some.inj hstep)
    exact callBound_secretStep h
  | exchange =>
    obtain ⟨rfl, rfl⟩ := Prod.mk.inj (Option.some.inj hstep)
    exact callBound_exchangeStep h
  | verify callback =>
    obtain ⟨rfl, rfl⟩ := Prod.mk.inj (Option.some.inj hstep)
    exact callBound_verifyStep callback

end

/-! ## Runs -/

/-- No call has begun, and the keys of the requests are unique and used up to `nextID`. -/
structure OIDCInitial (s : Pool OIDCWorld OIDCCall) : Prop where
  idle : ∀ i, s.locals i = .idle
  resolutions : s.shared.resolutions = []
  requestKeys : (s.shared.store.requests.map (·.id)).Nodup
  requestIDs : ∀ row ∈ s.shared.store.requests, row.id < s.shared.store.nextID

section

variable (cfg : OIDCConfig)

/-- At some step of the run from `s`, taken at this time, a callback with these arguments
claimed the row, which stood in the table. -/
def ClaimedIn (s : Pool OIDCWorld OIDCCall) (as : List (ℕ × OIDCAction)) (params : CallbackParams)
    (provider : OIDCProvider) (row : OIDCRequestRow) (claimedAt : Instant) : Prop :=
  ∃ bs i answer cs u entry, as = bs ++ (i, .next claimedAt answer) :: cs ∧
    (oidcCalls cfg).machine.run s bs = some u ∧ u.locals i = .claim params provider entry ∧
    row ∈ u.shared.store.requests

/-- What holds after the labels `as` of a run from `s`. -/
structure BoundSoFar (s : Pool OIDCWorld OIDCCall) (as : List (ℕ × OIDCAction))
    (t : Pool OIDCWorld OIDCCall) : Prop where
  run : (oidcCalls cfg).machine.run s as = some t
  providers : t.shared.store.providers = s.shared.store.providers
  identities : t.shared.store.identities = s.shared.store.identities
  resolutions : ∀ r ∈ t.shared.resolutions, Bound cfg s.shared.store (ClaimedIn cfg s as) r
  calls : ∀ i, CallBound cfg s.shared.store (ClaimedIn cfg s as) t.shared (t.locals i)

variable {cfg}

theorem ClaimedIn.append {s : Pool OIDCWorld OIDCCall} {as : List (ℕ × OIDCAction)}
    {params : CallbackParams} {provider : OIDCProvider} {row : OIDCRequestRow} {claimedAt : Instant}
    (h : ClaimedIn cfg s as params provider row claimedAt) (ds : List (ℕ × OIDCAction)) :
    ClaimedIn cfg s (as ++ ds) params provider row claimedAt := by
  obtain ⟨bs, i, answer, cs, u, entry, rfl, hrun, hcall, hrow⟩ := h
  exact ⟨bs, i, answer, cs ++ ds, u, entry, by simp, hrun, hcall, hrow⟩

/-- One more label keeps it. -/
theorem BoundSoFar.step {s t t' : Pool OIDCWorld OIDCCall} {as : List (ℕ × OIDCAction)}
    {a : ℕ × OIDCAction} (h : BoundSoFar cfg s as t)
    (hstep : (oidcCalls cfg).machine.step t a = some t') :
    BoundSoFar cfg s (as ++ [a]) t' := by
  obtain ⟨i, action⟩ := a
  obtain ⟨call', hcall', hi, hothers⟩ := Process.step_cases hstep
  have heffect := oidcCalls_effect hcall'
  have hmono : ∀ params provider row now, ClaimedIn cfg s as params provider row now →
      ClaimedIn cfg s (as ++ [(i, action)]) params provider row now :=
    fun _ _ _ _ hclaimed => hclaimed.append _
  have hcalls : ∀ j, CallBound cfg s.shared.store (ClaimedIn cfg s (as ++ [(i, action)]))
      t.shared (t.locals j) := fun j => (h.calls j).mono hmono (List.Subset.refl _)
  obtain ⟨hproviders, hidentities⟩ := heffect.same_providers
  have hown : CallBound cfg s.shared.store (ClaimedIn cfg s (as ++ [(i, action)])) t'.shared
      call' := by
    cases action with
    | start request =>
      simp only [oidcCalls] at hcall'
      split_ifs at hcall'
      obtain ⟨-, rfl⟩ := Prod.mk.inj (Option.some.inj hcall')
      exact callBound_request request
    | fail =>
      simp only [oidcCalls] at hcall'
      split_ifs at hcall'
      obtain ⟨-, rfl⟩ := Prod.mk.inj (Option.some.inj hcall')
      trivial
    | next now answer =>
      refine (hcalls i).step h.providers h.identities ?_ hcall'
      intro params provider entry row hcall hrow
      exact ⟨as, i, answer, [], t, entry, rfl, h.run, hcall, List.mem_of_find?_eq_some hrow⟩
  refine ⟨?_, hproviders.trans h.providers, hidentities.trans h.identities, ?_, fun j => ?_⟩
  · refine (oidcCalls cfg).machine.run_append_eq_some.mpr ⟨t, h.run, ?_⟩
    exact (oidcCalls cfg).machine.run_cons_eq_some.mpr ⟨t', hstep, rfl⟩
  · intro r hr
    rcases heffect.bound (hcalls i) hr with hold | hnew
    · exact (h.resolutions r hold).mono hmono
    · exact hnew
  · by_cases hji : j = i
    · rw [hji, hi]
      exact hown
    · rw [hothers j hji]
      exact (hcalls j).mono (fun _ _ _ _ hclaimed => hclaimed) heffect.resolutions_subset

/-- It holds of every run. -/
theorem boundSoFar_of_run {s t : Pool OIDCWorld OIDCCall} (hs : OIDCInitial s)
    {as : List (ℕ × OIDCAction)} (hrun : (oidcCalls cfg).machine.run s as = some t) :
    BoundSoFar cfg s as t := by
  refine (oidcCalls cfg).machine.run_history (C := fun _ _ => True)
    (I := fun as _ t => BoundSoFar cfg s as t)
    (fun as vs u a v _ h _ hstep => h.step hstep) ?_
    ((oidcCalls cfg).machine.along_of_mem (fun _ _ => trivial) s) hrun
  refine ⟨rfl, rfl, rfl, ?_, fun i => ?_⟩
  · rw [hs.resolutions]
    exact List.forall_mem_nil _
  · rw [hs.idle i]
    trivial

/-- In every run, each stored request leads to at most one call of `resolveAccount`, and the
call was bound to it by every check. -/
theorem callback_single_use {s t : Pool OIDCWorld OIDCCall} (hs : OIDCInitial s)
    {as : List (ℕ × OIDCAction)} (hrun : (oidcCalls cfg).machine.run s as = some t) :
    (t.shared.resolutions.map (·.request.id)).Nodup ∧
      (∀ r ∈ t.shared.resolutions, Bound cfg s.shared.store (ClaimedIn cfg s as) r) ∧
      ∀ i provider subject claims, t.locals i = .done (.resolving provider subject claims) →
        ∃ r ∈ t.shared.resolutions,
          r.provider = provider ∧ r.token.subject = subject ∧ r.claims = claims := by
  have hbound := boundSoFar_of_run hs hrun
  have hnone : ∀ i callback, held (s.locals i) ≠ some callback := by
    intro i callback
    rw [hs.idle i]
    exact (Option.some_ne_none _).symm
  have honce : RequestsOnce s.shared := by
    refine ⟨hs.requestKeys, hs.requestIDs, ?_, ?_⟩
    · rw [hs.resolutions]
      exact List.nodup_nil
    · rw [hs.resolutions]
      exact List.forall_mem_nil _
  obtain ⟨hfinal, -⟩ := Process.run_locals_apart (I := RequestsOnce) (P := HoldsSpent) (R := HoldApart)
    (C := fun _ _ => True)
    (fun l m h callback callback' hl hm => (h callback' callback hm hl).symm)
    (fun _ _ _ _ _ hw hcall _ hstep => hw.step hcall (oidcCalls_effect hstep))
    (fun _ _ _ _ _ _ _ _ hother hapart hstep =>
      hother.step_other hapart (oidcCalls_effect hstep))
    honce (fun i callback hcallback => absurd hcallback (hnone i callback))
    (fun i _ _ callback _ hcallback => absurd hcallback (hnone i callback))
    ((oidcCalls cfg).machine.along_of_mem (fun _ _ => trivial) s) hrun
  refine ⟨hfinal.once, hbound.resolutions, fun i provider subject claims hcall => ?_⟩
  have hlogged := hbound.calls i
  rw [hcall] at hlogged
  exact hlogged

end

/-! ## A replayed callback -/

/-- A stand-in for the primitives: a seal puts the nonce first, and a text is its own digest. -/
def relayCrypto : Crypto where
  hmacSHA1 _ _ := []
  sha256 s := s
  checkPassword password hash := password == hash
  gcmSeal nonce plaintext := nonce ++ plaintext
  gcmOpen := fun text => some text

def relayConfig : OIDCConfig where
  crypto := relayCrypto
  box := ⟨true⟩
  secretsAvailable := true
  redirectBase := lit "https://sho.rt"
  requestTTL := 600 * second
  authCodeURL client _ _ _ := client.authURL

/-- One provider, and no request. -/
def relayWorld : Pool OIDCWorld OIDCCall where
  shared := { store := { providers := [
    { id := default, slug := lit "idp", displayName := lit "IdP", issuer := lit "https://idp.io"
      clientID := lit "purels" }] } }
  locals _ := .idle

def relayDraw : StartDraw where
  state _ := 0
  nonce _ := 1
  verifier := lit "verifier"
  sealNonce := []

/-- The provider answers with a token for two audiences. -/
def relayAnswer : Answer where
  discovery := .ok ⟨lit "https://idp.io/auth", lit "https://idp.io/token"⟩
  token := .ok (some (lit "jwt"))
  idToken := .ok
    { subject := lit "ann"
      audience := [lit "purels", lit "other"]
      nonce := randomString (List.ofFn relayDraw.nonce)
      claims := .ok { authorizedParty := lit "purels" } }

def relayParams : CallbackParams where
  slug := lit "idp"
  code := lit "code"
  state := randomString (List.ofFn relayDraw.state)
  cookieState := randomString (List.ofFn relayDraw.state)

/-- A sign-in whose callback arrives twice. -/
def relayRun : List (ℕ × OIDCAction) :=
  (0, .start (.start (lit "idp") relayDraw)) :: List.replicate 4 (0, .next 0 relayAnswer) ++
    [(1, .start (.callback relayParams)), (2, .start (.callback relayParams))] ++
    (List.replicate 3 [(1, .next 1 relayAnswer), (2, .next 1 relayAnswer)]).flatten ++
    List.replicate 2 (1, .next 1 relayAnswer)

/-- One of the two callbacks comes to an account, with the token of its own request. -/
theorem callback_single_use_replayed :
    ∃ t, (oidcCalls relayConfig).machine.run relayWorld relayRun = some t ∧
      t.shared.resolutions.map (·.request.id) = [0] ∧
      ∀ r ∈ t.shared.resolutions, r.token.nonce = r.request.nonce := by
  have hids : ((oidcCalls relayConfig).machine.run relayWorld relayRun).map
      (fun t => t.shared.resolutions.map (·.request.id)) = some [0] := by
    rfl
  obtain ⟨t, hrun, honce⟩ := Option.map_eq_some_iff.mp hids
  have hinit : OIDCInitial relayWorld :=
    ⟨fun _ => rfl, rfl, List.nodup_nil, List.forall_mem_nil _⟩
  obtain ⟨-, hbound, -⟩ := callback_single_use hinit hrun
  exact ⟨t, hrun, honce, fun r hr => (hbound r hr).nonce⟩

end Purels.Properties
