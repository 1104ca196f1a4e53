import Purels.Go.NetIP
import Purels.Go.Url

/-!
# The routes of the API

What `NewRouter` registers, and what it relies on of the router that dispatches.

* `Endpoint`, `Route` and `newRouter`: every route with its handler, in the source's order.
* `matchSegments`: a pattern against a path, segment by segment.
* `Chi`: a router that finds only routes whose pattern matches, and finds one when there is one.
* `redirectLookup`: the code that `Handler.Redirect` looks up.
-/

namespace Purels.Http

open Go

/-! ## The routes -/

inductive Method where
  | get
  | head
  | post
  | put
  | patch
  | delete
  deriving DecidableEq

/-- The handler of a route; the ones written in place are named after their path. -/
inductive Endpoint where
  | health | ready | metrics | adminPage | loginPage | registerPage | login | register
  | verifySecondFactor | csrf | publicOIDCProviders | oidcStart | oidcCallback | publicCaptcha
  | publicAnalytics | logout | me | mfaStatus | enrollMFA | confirmMFA | disableMFA | listLinks
  | createLink | exportLinks | expandLink | importLinks | bulkLinks | getLink | updateLink
  | deleteLink | checkLink | qrCode | listTags | appConfig | linkStats | linkClicks | summary
  | topLinks | overview | listAuditLogs | listUsers | updateUser | resetUserMFA | listRoles
  | updateRole | listOIDCProviders | createOIDCProvider | updateOIDCProvider | deleteOIDCProvider
  | getAnalyticsSettings | updateAnalyticsSettings | getCaptchaSettings | updateCaptchaSettings
  | getRuntimeSettings | updateRuntimeSettings | patchRuntimeSettings | listTokens | createToken
  | revokeToken | redirect
  deriving DecidableEq

structure Route where
  method : Method
  pattern : GoString
  endpoint : Endpoint
  deriving DecidableEq

/-- The routes on the router itself, before the group. -/
def rootRoutes : List Route :=
  [⟨.get, lit "/healthz", .health⟩,
    ⟨.get, lit "/readyz", .ready⟩,
    ⟨.get, lit "/metrics", .metrics⟩,
    ⟨.get, lit "/admin/*", .adminPage⟩,
    ⟨.get, lit "/login", .loginPage⟩,
    ⟨.get, lit "/register", .registerPage⟩,
    ⟨.post, lit "/api/v1/auth/login", .login⟩,
    ⟨.post, lit "/api/v1/auth/register", .register⟩,
    ⟨.post, lit "/api/v1/auth/2fa/verify", .verifySecondFactor⟩,
    ⟨.get, lit "/api/v1/auth/csrf", .csrf⟩,
    ⟨.get, lit "/api/v1/auth/oidc/providers", .publicOIDCProviders⟩,
    ⟨.get, lit "/api/v1/auth/oidc/\x7bslug\x7d/start", .oidcStart⟩,
    ⟨.get, lit "/api/v1/auth/oidc/\x7bslug\x7d/callback", .oidcCallback⟩,
    ⟨.get, lit "/api/v1/auth/captcha", .publicCaptcha⟩,
    ⟨.get, lit "/api/v1/analytics/public", .publicAnalytics⟩]

/-- The routes of the authenticated group, below `/api/v1`. -/
def apiRoutes : List Route :=
  [⟨.post, lit "/auth/logout", .logout⟩,
    ⟨.get, lit "/auth/me", .me⟩,
    ⟨.get, lit "/auth/2fa", .mfaStatus⟩,
    ⟨.post, lit "/auth/2fa/enroll", .enrollMFA⟩,
    ⟨.post, lit "/auth/2fa/confirm", .confirmMFA⟩,
    ⟨.post, lit "/auth/2fa/disable", .disableMFA⟩,
    ⟨.get, lit "/links", .listLinks⟩,
    ⟨.post, lit "/links", .createLink⟩,
    ⟨.get, lit "/links/export", .exportLinks⟩,
    ⟨.get, lit "/links/expand", .expandLink⟩,
    ⟨.post, lit "/links/import", .importLinks⟩,
    ⟨.post, lit "/links/bulk", .bulkLinks⟩,
    ⟨.get, lit "/links/\x7bid\x7d", .getLink⟩,
    ⟨.patch, lit "/links/\x7bid\x7d", .updateLink⟩,
    ⟨.delete, lit "/links/\x7bid\x7d", .deleteLink⟩,
    ⟨.post, lit "/links/\x7bid\x7d/check", .checkLink⟩,
    ⟨.get, lit "/links/\x7bid\x7d/qr", .qrCode⟩,
    ⟨.get, lit "/tags", .listTags⟩,
    ⟨.get, lit "/config", .appConfig⟩,
    ⟨.get, lit "/links/\x7bid\x7d/stats", .linkStats⟩,
    ⟨.get, lit "/links/\x7bid\x7d/clicks", .linkClicks⟩,
    ⟨.get, lit "/stats/summary", .summary⟩,
    ⟨.get, lit "/stats/top", .topLinks⟩,
    ⟨.get, lit "/stats/overview", .overview⟩,
    ⟨.get, lit "/audit", .listAuditLogs⟩,
    ⟨.get, lit "/users", .listUsers⟩,
    ⟨.patch, lit "/users/\x7bid\x7d", .updateUser⟩,
    ⟨.post, lit "/users/\x7bid\x7d/2fa/reset", .resetUserMFA⟩,
    ⟨.get, lit "/roles", .listRoles⟩,
    ⟨.patch, lit "/roles/\x7bname\x7d", .updateRole⟩,
    ⟨.get, lit "/oidc/providers", .listOIDCProviders⟩,
    ⟨.post, lit "/oidc/providers", .createOIDCProvider⟩,
    ⟨.patch, lit "/oidc/providers/\x7bid\x7d", .updateOIDCProvider⟩,
    ⟨.delete, lit "/oidc/providers/\x7bid\x7d", .deleteOIDCProvider⟩,
    ⟨.get, lit "/analytics", .getAnalyticsSettings⟩,
    ⟨.put, lit "/analytics", .updateAnalyticsSettings⟩,
    ⟨.get, lit "/captcha", .getCaptchaSettings⟩,
    ⟨.patch, lit "/captcha", .updateCaptchaSettings⟩,
    ⟨.get, lit "/settings/runtime", .getRuntimeSettings⟩,
    ⟨.put, lit "/settings/runtime", .updateRuntimeSettings⟩,
    ⟨.patch, lit "/settings/runtime", .patchRuntimeSettings⟩,
    ⟨.get, lit "/auth/tokens", .listTokens⟩,
    ⟨.post, lit "/auth/tokens", .createToken⟩,
    ⟨.delete, lit "/auth/tokens/\x7bid\x7d", .revokeToken⟩]

/-- The routes of the short links. -/
def aliasRoutes : List Route :=
  [⟨.get, lit "/\x7balias\x7d", .redirect⟩,
    ⟨.head, lit "/\x7balias\x7d", .redirect⟩]

/-- `NewRouter`. -/
def newRouter : List Route :=
  rootRoutes ++
    apiRoutes.map (fun route => { route with pattern := lit "/api/v1" ++ route.pattern }) ++
      aliasRoutes

/-! ## Patterns -/

/-- A `{name}` segment, which takes the place of one segment. -/
def isParam (segment : GoString) : Bool :=
  segment.head? == some 0x7B && segment.getLast? == some 0x7D

/-- A pattern against a path: a last star takes all that is left, even when that is empty. -/
def matchSegments : List GoString → List GoString → Bool
  | [], [] => true
  | pattern :: patterns, text :: texts =>
    if pattern = [0x2A] ∧ patterns = [] then true
    else (isParam pattern || pattern == text) && matchSegments patterns texts
  | _, _ => false

/-- The segments of a pattern or a path. -/
def segments (path : GoString) : List GoString := split 0x2F path

def patternMatches (pattern path : GoString) : Bool :=
  matchSegments (segments pattern) (segments path)

/-- A pattern is not longer than what it matches. -/
theorem matchSegments_length {patterns texts : List GoString}
    (h : matchSegments patterns texts) : patterns.length ≤ texts.length := by
  induction patterns generalizing texts with
  | nil => exact Nat.zero_le _
  | cons pattern patterns ih =>
    cases texts with
    | nil => cases h
    | cons text texts =>
      rw [matchSegments] at h
      split_ifs at h with hstar
      · rw [hstar.2]
        simp
      · have hrest := ih (Bool.and_eq_true_iff.mp h).2
        simpa using hrest

theorem segments_eq_singleton {text : GoString} (h : (0x2F : UInt8) ∉ text) :
    segments text = [text] := by
  unfold segments
  induction text with
  | nil => rfl
  | cons c text ih =>
    have hc : c ≠ 0x2F := fun heq => h (heq ▸ List.mem_cons_self)
    rw [split, if_neg hc, ih fun hmem => h (List.mem_cons_of_mem c hmem)]

/-! ## Dispatch -/

/-- A router, as far as its documentation goes.  Which of several matching routes is found is
not said here; a parameter at the end of the path may refuse to be empty. -/
structure Chi where
  find : List Route → Method → (path : GoString) → Option Route
  find_matches : ∀ routes method path route, find routes method path = some route →
    route ∈ routes ∧ route.method = method ∧ patternMatches route.pattern path
  find_some : ∀ routes method path route, route ∈ routes → route.method = method →
    patternMatches route.pattern path → (∀ segment ∈ (segments path).tail, segment ≠ []) →
      (find routes method path).isSome

/-- The router that takes the first route that matches. -/
def plainChi : Chi where
  find routes method path :=
    routes.find? fun route => route.method == method && patternMatches route.pattern path
  find_matches routes method path route h := by
    have hsome := List.find?_some h
    rw [Bool.and_eq_true, beq_iff_eq] at hsome
    exact ⟨List.mem_of_find?_eq_some h, hsome⟩
  find_some routes method path route hmem hmethod hmatch _ := by
    apply List.find?_isSome.mpr
    exact ⟨route, hmem, by rw [hmethod, hmatch, beq_self_eq_true]; rfl⟩

/-- The path that is dispatched on. -/
def routePath (url : Url) : GoString := if url.rawPath ≠ [] then url.rawPath else url.path

/-! ## The short link handler -/

/-- What `Handler.Redirect` does with its path. -/
inductive RedirectLookup where
  | notFound
  | preview (code : GoString)
  | resolve (code : GoString)
  deriving DecidableEq

/-- The start of `Handler.Redirect`: which code is looked up. -/
def redirectLookup (path : GoString) : RedirectLookup :=
  let code := trimByte 0x2F path
  if code = [] ∨ 0x2F ∈ code then .notFound
  else if code.getLast? = some 0x2B then .preview code.dropLast
  else .resolve code

end Purels.Http
