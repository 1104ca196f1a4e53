import Purels.Deploy.Caddyfile
import Purels.Go.UrlText
import Purels.Http.Router
import Purels.Service.CsvSpecs

/-!
# Which aliases are reachable

Three lists name the paths that are no short codes: the reserved aliases, the blocks of the
`Caddyfile` and the routes of the API.

* `Given`: an alias that the service accepts, or that it makes and does not skip.
* `Reaches`: a visit of the alias is proxied to the API and resolves that very code.
* `proxy_alias_iff`: which aliases the proxy passes on; `find_alias`: all of them are
  dispatched to `Handler.Redirect`.
* `alias_reached_iff`: every given alias is reachable except `home`, in any casing, which the
  proxy passes on to the console and the reserved names lack.
-/

namespace Purels.Properties

open Go Security Store Service Http Deploy

variable (u : Unicode)

/-- An alias a link can get: a caller's own, or a generated one that is not skipped. -/
def Given (aliasName : GoString) : Prop :=
  ValidateAlias u aliasName = .ok () ∨
    AliasReserved u aliasName = false ∧
      ∃ settings draw s, (nextAlias settings draw s).1 = .ok aliasName

/-- A `GET` of the alias arrives at the lookup of that code. -/
def Reaches (caddy : Caddy u) (chi : Chi) (host aliasName : GoString) : Prop :=
  ∃ url, parseRequestURI u (0x2F :: aliasName) = some url ∧
    caddy.proxy caddyfile host url.path = some .api ∧
    (∃ route, chi.find newRouter .get (routePath url) = some route ∧
      route.endpoint = .redirect) ∧
    redirectLookup url.path = .resolve aliasName

variable {u}

/-! ## The grammar of aliases -/

/-- What the code relies on of an alias. -/
structure AliasText (u : Unicode) (aliasName : GoString) : Prop where
  ne_nil : aliasName ≠ []
  bytes : ∀ c ∈ aliasName, isAliasByte c
  free : reserved.contains (toLower u aliasName) = false

theorem aliasText_of_given {aliasName : GoString} (h : Given u aliasName) :
    AliasText u aliasName := by
  rcases h with hvalid | ⟨hfree, settings, draw, s, hnext⟩
  · unfold ValidateAlias at hvalid
    split_ifs at hvalid with hreserved hpattern
    rw [Bool.not_eq_true', Bool.not_eq_false] at hpattern
    have hspec := aliasPattern_spec hpattern
    exact ⟨hspec.1, hspec.2, by simpa [AliasReserved] using hreserved⟩
  · have hspec := nextAlias_spec hnext
    exact ⟨hspec.1, hspec.2, hfree⟩

/-- A byte of an alias stands in a path as it is, and lower-casing leaves it one. -/
theorem aliasByte_path (c : UInt8) : isAliasByte c →
    shouldEscape c .path = false ∧ c ≠ 0x2F ∧ c ≠ 0x2B ∧ c.toNat < 0x80 ∧
      isAliasByte (UInt8.ofNat (asciiLower c.toNat)) :=
  Lib.forall_byte c (by decide +kernel)

section

variable {aliasName : GoString} (h : AliasText u aliasName)

include h

theorem AliasText.ascii : ∀ c ∈ aliasName, c.toNat < 0x80 :=
  fun c hc => (aliasByte_path c (h.bytes c hc)).2.2.2.1

theorem AliasText.slash_not_mem : (0x2F : UInt8) ∉ aliasName :=
  fun hmem => (aliasByte_path _ (h.bytes _ hmem)).2.1 rfl

/-- In lower case it is still made of the bytes of an alias. -/
theorem AliasText.lower : toLower u aliasName ≠ [] ∧ (toLower u aliasName).all isAliasByte := by
  refine ⟨toLower_ne_nil u h.ne_nil, List.all_eq_true.mpr fun b hb => ?_⟩
  rw [toLower_ascii u h.ascii] at hb
  obtain ⟨c, hc, rfl⟩ := List.mem_map.mp hb
  exact (aliasByte_path c (h.bytes c hc)).2.2.2.2

theorem AliasText.toLower_path : toLower u (0x2F :: aliasName) = 0x2F :: toLower u aliasName := by
  have hall : ∀ c ∈ 0x2F :: aliasName, c.toNat < 0x80 :=
    List.forall_mem_cons.mpr ⟨by decide, h.ascii⟩
  rw [toLower_ascii u hall, toLower_ascii u h.ascii]
  rfl

end

/-! ## The reverse proxy -/

/-- An ASCII string in lower case. -/
def lowered (s : GoString) : GoString := s.map fun b => UInt8.ofNat (asciiLower b.toNat)

/-- A pattern of the file: a path, or everything below a path. -/
def isFilePattern (pattern : GoString) : Bool :=
  (pattern.all fun b => decide (b.toNat < 0x80)) &&
    (plainPattern pattern ||
      pattern == pattern.dropLast ++ [0x2A] && plainPattern pattern.dropLast &&
        (lowered pattern.dropLast).tail.contains 0x2F)

/-- The patterns of the block for the API. -/
def apiPatterns : List GoString := [lit "/api/*", lit "/healthz", lit "/readyz", lit "/metrics"]

/-- The patterns of the block for the console. -/
def webPatterns : List GoString :=
  [lit "/", lit "/i18n/en", lit "/i18n/zh-CN", lit "/_next/*", lit "/admin", lit "/admin/*",
    lit "/home", lit "/home/*", lit "/login", lit "/login/*", lit "/register",
    lit "/register/*", lit "/favicon.ico", lit "/robots.txt", lit "/sitemap.xml",
    lit "/icon.svg"]

theorem patterns_file : (apiPatterns ++ webPatterns).all isFilePattern := by decide

/-- `home` is the one name of an alias that only the console's block has. -/
theorem patterns_names : webPatterns.all (fun pattern =>
    (lowered pattern).tail == [] || !(lowered pattern).tail.all isAliasByte ||
      reserved.contains (lowered pattern).tail || lowered pattern == lit "/home") ∧
    apiPatterns.all (fun pattern => lowered pattern != lit "/home") := by
  decide

section

variable (caddy : Caddy u) {aliasName : GoString} (h : AliasText u aliasName)

include h

/-- A pattern of the file that matches is the alias but for its casing. -/
theorem pattern_of_pathMatches {pattern : GoString} (hfile : isFilePattern pattern)
    (hmatch : caddy.pathMatches pattern (0x2F :: aliasName)) :
    lowered pattern = 0x2F :: toLower u aliasName := by
  rw [isFilePattern, Bool.and_eq_true, List.all_eq_true] at hfile
  obtain ⟨hascii, hform⟩ := hfile
  by_cases hplain : plainPattern pattern
  · rw [caddy.path_exact _ _ hplain, beq_iff_eq, h.toLower_path,
      toLower_ascii u fun b hb => of_decide_eq_true (hascii b hb)] at hmatch
    exact hmatch
  · -- below a path: the slash before the star would be one of the alias
    rw [Bool.or_eq_true, or_iff_right hplain, Bool.and_eq_true, Bool.and_eq_true, beq_iff_eq,
      List.contains_iff_mem] at hform
    obtain ⟨⟨hstar, hstem⟩, hslash⟩ := hform
    have hstemLower : toLower u pattern.dropLast = lowered pattern.dropLast :=
      toLower_ascii u fun b hb => of_decide_eq_true (hascii b (List.mem_of_mem_dropLast hb))
    rw [hstar, caddy.path_prefix _ _ hstem, List.isPrefixOf_iff_prefix, h.toLower_path,
      hstemLower] at hmatch
    have hmem : (0x2F : UInt8) ∈ toLower u aliasName := by
      rcases List.prefix_cons_iff.mp hmatch with hnil | ⟨stem, hcons, hprefix⟩
      · rw [hnil] at hslash
        cases hslash
      · rw [hcons] at hslash
        exact hprefix.subset hslash
    have hbyte := List.all_eq_true.mp h.lower.2 _ hmem
    exact absurd hbyte (by decide)

/-- One of the patterns of the file matches only if it spells the alias. -/
theorem spelled_of_any {patterns : List GoString}
    (hfile : ∀ pattern ∈ patterns, pattern ∈ apiPatterns ++ webPatterns)
    (hany : patterns.any fun pattern => caddy.pathMatches pattern (0x2F :: aliasName)) :
    ∃ pattern ∈ patterns, lowered pattern = 0x2F :: toLower u aliasName := by
  obtain ⟨pattern, hmem, hmatch⟩ := List.any_eq_true.mp hany
  have hform := List.all_eq_true.mp patterns_file pattern (hfile pattern hmem)
  exact ⟨pattern, hmem, pattern_of_pathMatches caddy h hform hmatch⟩

omit h in
/-- The blocks in their order, on a host that is not the dedicated one. -/
theorem proxy_caddyfile {host : GoString} (hhost : toLower u host ≠ lit "s.example.com")
    (path : GoString) : caddy.proxy caddyfile host path =
      if apiPatterns.any (fun pattern => caddy.pathMatches pattern path) then some .api
      else if webPatterns.any (fun pattern => caddy.pathMatches pattern path) then some .web
      else some .api := by
  have hdedicated : caddy.hostMatches (lit "s.example.com") host = false := by
    have hname : toLower u (lit "s.example.com") = lit "s.example.com" := by
      rw [toLower_ascii u (by decide +kernel)]
      decide
    rw [caddy.host_exact, hname, beq_eq_false_iff_ne]
    exact hhost.symm
  rw [caddy.proxy_first]
  have hblocks : caddyfile = [⟨.host [lit "s.example.com"], .api⟩, ⟨.path apiPatterns, .api⟩,
      ⟨.path webPatterns, .web⟩, ⟨.all, .api⟩] := rfl
  rw [hblocks]
  simp only [List.find?_cons, CaddyMatcher.holds, List.any_cons, List.any_nil, hdedicated,
    Bool.or_false]
  cases apiPatterns.any fun pattern => caddy.pathMatches pattern path
  · cases webPatterns.any fun pattern => caddy.pathMatches pattern path
    · rfl
    · rfl
  · rfl

/-- Where the proxy sends a visit of an alias on a host that is not the dedicated one. -/
theorem proxy_alias_iff {host : GoString} (hhost : toLower u host ≠ lit "s.example.com") :
    caddy.proxy caddyfile host (0x2F :: aliasName) = some .api ↔
      toLower u aliasName ≠ lit "home" := by
  rw [proxy_caddyfile caddy hhost]
  split_ifs with hapi hweb
  · refine iff_of_true rfl fun hhome => ?_
    obtain ⟨pattern, hmem, heq⟩ := spelled_of_any caddy h (by simp +contextual) hapi
    rw [hhome] at heq
    exact bne_iff_ne.mp (List.all_eq_true.mp patterns_names.2 pattern hmem) heq
  · refine iff_of_false (by decide) fun hhome => hhome ?_
    obtain ⟨pattern, hmem, heq⟩ := spelled_of_any caddy h (by simp +contextual) hweb
    have hname := List.all_eq_true.mp patterns_names.1 pattern hmem
    simp only [heq, List.tail_cons, Bool.or_eq_true, Bool.not_eq_true', h.lower.2, h.free,
      beq_iff_eq, h.lower.1, reduceCtorEq, false_or, Bool.false_eq_true] at hname
    exact (List.cons.inj hname).2
  · refine iff_of_true rfl fun hhome => hweb ?_
    -- the block of the console would match it
    apply List.any_eq_true.mpr
    refine ⟨lit "/home", by decide, ?_⟩
    rw [caddy.path_exact _ _ (by decide), h.toLower_path, hhome,
      toLower_ascii u (by decide +kernel)]
    decide

end

/-! ## The router -/

/-- Every other page has a longer path, or its name is reserved. -/
theorem newRouter_pages : newRouter.all fun route =>
    route.method != .get || route.endpoint == .redirect ||
      decide (3 ≤ (segments route.pattern).length) ||
      reserved.any fun name => segments route.pattern == [[], name] && name != [0x2A] &&
        !isParam name && lowered name == name && name.all fun b => decide (b.toNat < 0x80) := by
  decide

/-- A visit of an alias is dispatched to the short link handler. -/
theorem find_alias (chi : Chi) {aliasName : GoString} (h : AliasText u aliasName) :
    ∃ route, chi.find newRouter .get (0x2F :: aliasName) = some route ∧
      route.endpoint = .redirect := by
  have hsegments : segments (0x2F :: aliasName) = [[], aliasName] := by
    have hrest := segments_eq_singleton h.slash_not_mem
    rw [segments] at hrest ⊢
    rw [split, if_pos rfl, hrest]
  have hfound := chi.find_some newRouter .get (0x2F :: aliasName)
    ⟨.get, lit "/\x7balias\x7d", .redirect⟩ (by decide) rfl
    (by rw [patternMatches, hsegments]; rfl)
    (by simpa [hsegments] using h.ne_nil)
  obtain ⟨route, hroute⟩ := Option.isSome_iff_exists.mp hfound
  refine ⟨route, hroute, ?_⟩
  obtain ⟨hmem, hmethod, hmatch⟩ := chi.find_matches _ _ _ _ hroute
  have hpage := List.all_eq_true.mp newRouter_pages route hmem
  rw [patternMatches, hsegments] at hmatch
  have hshort := matchSegments_length hmatch
  by_contra hother
  simp only [hmethod, hother, bne_self_eq_false, beq_iff_eq, Bool.false_or, Bool.or_eq_true,
    decide_eq_true_eq, false_or] at hpage
  rcases hpage with hlong | hname
  · simp only [List.length_cons, List.length_nil] at hshort
    omega
  · obtain ⟨name, hreserved, hname⟩ := List.any_eq_true.mp hname
    simp only [Bool.and_eq_true, beq_iff_eq, bne_iff_ne, Bool.not_eq_true'] at hname
    obtain ⟨⟨⟨⟨hpattern, hstar⟩, hparam⟩, hlower⟩, hascii⟩ := hname
    have hsame : aliasName = name := by
      rw [hpattern, matchSegments, if_neg (by simp), matchSegments, if_neg (by simp [hstar]),
        hparam, Bool.false_or, matchSegments, Bool.and_true, Bool.and_eq_true] at hmatch
      exact (beq_iff_eq.mp hmatch.2).symm
    have hfree := h.free
    rw [hsame, toLower_ascii u fun b hb => of_decide_eq_true (List.all_eq_true.mp hascii b hb)]
      at hfree
    rw [lowered] at hlower
    rw [hlower, List.contains_eq_mem, decide_eq_false_iff_not] at hfree
    exact hfree hreserved

/-! ## The lookup -/

theorem redirectLookup_alias {aliasName : GoString} (h : AliasText u aliasName) :
    redirectLookup (0x2F :: aliasName) = .resolve aliasName := by
  have htrim : trimByte 0x2F (0x2F :: aliasName) = aliasName := by
    have hother : ∀ c ∈ aliasName, ¬ (c == 0x2F) = true := fun c hc heq =>
      h.slash_not_mem (beq_iff_eq.mp heq ▸ hc)
    have hdrop : (0x2F :: aliasName).dropWhile (· == 0x2F) = aliasName := by
      rw [List.dropWhile_cons_of_pos (by decide)]
      exact List.dropWhile_eq_self_iff.mpr fun hpos => hother _ (List.getElem_mem hpos)
    rw [trimByte, hdrop]
    exact List.rdropWhile_eq_self_iff.mpr fun hne => hother _ (List.getLast_mem hne)
  rw [redirectLookup]
  show (if trimByte 0x2F (0x2F :: aliasName) = [] ∨ 0x2F ∈ trimByte 0x2F (0x2F :: aliasName) then _
    else _) = _
  rw [htrim, if_neg (by simp [h.ne_nil, h.slash_not_mem]), if_neg]
  intro hlast
  have hplus := h.bytes _ (List.mem_of_getLast? hlast)
  exact absurd hplus (by decide)

/-- Every alias that a link can get is reachable, save one name. -/
theorem alias_reached_iff (caddy : Caddy u) (chi : Chi) {host aliasName : GoString}
    (hhost : toLower u host ≠ lit "s.example.com") (h : Given u aliasName) :
    Reaches u caddy chi host aliasName ↔ toLower u aliasName ≠ lit "home" := by
  have htext := aliasText_of_given h
  have hparse : parseRequestURI u (0x2F :: aliasName) = some { path := 0x2F :: aliasName } :=
    parseRequestURI_path u fun c hc => (aliasByte_path c (htext.bytes c hc)).1
  rw [← proxy_alias_iff caddy htext hhost]
  constructor
  · rintro ⟨url, hurl, hproxy, -⟩
    rw [hparse] at hurl
    obtain rfl := Option.some.inj hurl
    exact hproxy
  · intro hproxy
    exact ⟨_, hparse, hproxy, find_alias chi htext, redirectLookup_alias htext⟩

/-- An ordinary alias on the default host. -/
theorem abc_reached :
    Reaches .ascii (plainCaddy .ascii) plainChi (lit "localhost") (lit "abc") :=
  (alias_reached_iff (plainCaddy .ascii) plainChi (by decide)
    (.inl (by decide))).mpr (by decide)

/-- The alias `home` is accepted, the counter makes it too, and visits go to the console. -/
theorem home_not_reached :
    ValidateAlias .ascii (lit "home") = .ok () ∧ EncodeBase36 825062 = lit "home" ∧
      AliasReserved .ascii (lit "home") = false ∧
      (plainCaddy .ascii).proxy caddyfile (lit "localhost") (lit "/home") = some .web ∧
      ¬ Reaches .ascii (plainCaddy .ascii) plainChi (lit "localhost") (lit "home") := by
  refine ⟨by decide, by decide, by decide, by decide, ?_⟩
  rintro ⟨url, hurl, hproxy, -⟩
  have hpath : (parseRequestURI .ascii (0x2F :: lit "home")).map Url.path = some (lit "/home") := by
    decide
  rw [hurl] at hpath
  rw [Option.some.inj hpath] at hproxy
  revert hproxy
  decide

end Purels.Properties
