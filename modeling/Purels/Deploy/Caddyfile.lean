import Purels.Go.Strings

/-!
# The reverse proxy

The `Caddyfile` of the deployment, and what it relies on of the proxy that reads it.

* `CaddyMatcher`, `CaddyHandle` and `caddyfile`: the blocks of the file, in their order.
* `Caddy`: a proxy with its documented rules.  A path is compared without regard to case, as a
  whole, or as a prefix when the pattern ends with a star; the first block that matches
  handles the request.
* `plainCaddy`: the proxy that does just that.
-/

namespace Purels.Deploy

open Go

/-- What a request is passed on to. -/
inductive Upstream where
  | api
  | web
  deriving DecidableEq

/-- The matcher of a block; a block without one takes every request. -/
inductive CaddyMatcher where
  | host (names : List GoString)
  | path (patterns : List GoString)
  | all

/-- A `handle` block. -/
structure CaddyHandle where
  matcher : CaddyMatcher
  upstream : Upstream

/-- The blocks of the file for port 80. -/
def caddyfile : List CaddyHandle :=
  [⟨.host [lit "s.example.com"], .api⟩,
    ⟨.path [lit "/api/*", lit "/healthz", lit "/readyz", lit "/metrics"], .api⟩,
    ⟨.path [lit "/", lit "/i18n/en", lit "/i18n/zh-CN", lit "/_next/*", lit "/admin",
      lit "/admin/*", lit "/home", lit "/home/*", lit "/login", lit "/login/*", lit "/register",
      lit "/register/*", lit "/favicon.ico", lit "/robots.txt", lit "/sitemap.xml",
      lit "/icon.svg"], .web⟩,
    ⟨.all, .api⟩]

section

variable (hostMatches pathMatches : GoString → GoString → Bool)

/-- The matcher takes the request. -/
def CaddyMatcher.holds (host path : GoString) : CaddyMatcher → Bool
  | .host names => names.any fun name => hostMatches name host
  | .path patterns => patterns.any fun pattern => pathMatches pattern path
  | .all => true

end

/-- A pattern without wildcards. -/
def plainPattern (pattern : GoString) : Bool := !pattern.contains 0x2A

/-- A reverse proxy, as far as its documentation goes. -/
structure Caddy (u : Unicode) where
  hostMatches : (name host : GoString) → Bool
  pathMatches : (pattern path : GoString) → Bool
  /-- The upstream of a request. -/
  proxy : List CaddyHandle → (host path : GoString) → Option Upstream
  host_exact : ∀ name host, hostMatches name host = (toLower u name == toLower u host)
  path_exact : ∀ pattern path, plainPattern pattern →
    pathMatches pattern path = (toLower u pattern == toLower u path)
  path_prefix : ∀ stem path, plainPattern stem →
    pathMatches (stem ++ [0x2A]) path = (toLower u stem).isPrefixOf (toLower u path)
  /-- Blocks exclude each other: the first one that matches is the one. -/
  proxy_first : ∀ handles host path, proxy handles host path =
    (handles.find? fun handle => handle.matcher.holds hostMatches pathMatches host path).map
      CaddyHandle.upstream

section

variable (u : Unicode)

/-- A path pattern: a trailing star matches the rest. -/
def plainPathMatches (pattern path : GoString) : Bool :=
  if pattern.getLast? = some 0x2A then
    (toLower u pattern.dropLast).isPrefixOf (toLower u path)
  else toLower u pattern == toLower u path

def plainHostMatches (name host : GoString) : Bool := toLower u name == toLower u host

/-- The proxy that follows the rules to the letter. -/
def plainCaddy : Caddy u where
  hostMatches := plainHostMatches u
  pathMatches := plainPathMatches u
  proxy handles host path :=
    (handles.find? fun handle =>
      handle.matcher.holds (plainHostMatches u) (plainPathMatches u) host path).map
      CaddyHandle.upstream
  host_exact _ _ := rfl
  path_exact pattern path h := by
    have hlast : pattern.getLast? ≠ some 0x2A := by
      intro heq
      have hmem := List.mem_of_getLast? heq
      simp [plainPattern, hmem] at h
    exact if_neg hlast
  path_prefix stem path _ := by
    rw [plainPathMatches, if_pos List.getLast?_concat, List.dropLast_concat]
  proxy_first _ _ _ := rfl

end

end Purels.Deploy
