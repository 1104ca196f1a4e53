import Purels.Config.Runtime
import Purels.Go.UrlAddress
import Purels.Http.Reads
import Purels.Properties.LinkQuota
import Purels.Service.CsvSpecs

/-!
# Short URLs lead back to their links

`ShortURL` builds an address from the public URL or a short domain; `shortCode` takes it apart.

* `AliasesFit` and `aliasesFit_run`: the aliases that runs of the service store.
* `PublicAddress`: a public URL of a scheme, a host and perhaps a port.
* `ShortURL_eq`: the address of a link, in either case.
* `shortCode_ShortURL`: it leads back to the alias.
-/

namespace Purels.Properties

open Go Security Store LinkStore Service Http Config

/-! ## Stored aliases -/

/-- Letters, digits, hyphens and underscores, one at least. -/
def AliasFits (aliasName : GoString) : Prop := aliasName ≠ [] ∧ ∀ c ∈ aliasName, isAliasByte c

/-- All aliases of a store fit. -/
def AliasesFit (s : LinkStore) : Prop :=
  ∀ aliasName ∈ s.links.map LinkRow.aliasName, AliasFits aliasName

section

variable {u : Unicode} {loc : DatabaseLocale} {svc : LinkService}

theorem aliasFits_of_mayTake {settings : RuntimeSettingsInput} {req : CreateLinkRequest}
    {draws : List Draw} {aliasName : GoString} (h : MayTake settings req draws aliasName) :
    AliasFits aliasName := by
  unfold MayTake at h
  split_ifs at h
  · exact aliasPattern_spec h.2
  · obtain ⟨draw, -, t, hnext⟩ := h
    exact nextAlias_spec hnext

theorem aliasesFit_call {call : CreateCall} (h : AliasesFit call.before) :
    AliasesFit (call.outcome u loc svc).2 := by
  unfold CreateCall.outcome
  rcases Create_cases u loc svc call.settings call.ctx call.req call.now call.draws call.before with
    ⟨e, t, he, n, rfl⟩ | ⟨checked, found, hok, -⟩ | ⟨checked, made, t, hok, -, htake, hinserts⟩
  · rw [he]
    exact h
  · rw [hok]
    exact h
  · obtain ⟨v, ⟨n, rfl⟩, hcreate⟩ := hinserts.inserted
    obtain ⟨-, -, -, -, -, -, rfl⟩ := CreateLink_fits hcreate
    rw [hok]
    have hlinks : (LinkStore.insertLink { call.before with aliasSeq := n } made
        call.ctx.actorID).links = call.before.links ++ [newRow made call.ctx.actorID] := by
      unfold LinkStore.insertLink
      dsimp only
      split_ifs <;> rfl
    intro aliasName hmem
    rw [hlinks, List.map_append] at hmem
    rcases List.mem_append.mp hmem with hold | hnew
    · exact h aliasName hold
    · rw [List.mem_singleton.mp hnew]
      exact aliasFits_of_mayTake htake

theorem aliasesFit_chained {s t : LinkStore} {calls : List CreateCall}
    (h : Chained u loc svc s calls t) (hs : AliasesFit s) : AliasesFit t := by
  induction calls generalizing s with
  | nil =>
    obtain rfl : t = s := h
    exact hs
  | cons call calls ih =>
    obtain rfl := h.1
    exact ih h.2 (aliasesFit_call hs)

theorem aliasesFit_updateLinks {s : LinkStore} (selected : LinkRow → Bool)
    {set : LinkRow → LinkRow} (hset : ∀ row, (set row).aliasName = row.aliasName)
    (h : AliasesFit s) : AliasesFit (s.updateLinks selected set) := by
  unfold AliasesFit
  rw [map_updateLinks LinkRow.aliasName hset]
  exact h

/-- A step that creates nothing gives no row another alias. -/
theorem aliasesFit_step (w : QuotaWorld) (step : QuotaStep) (h : AliasesFit w.store) :
    AliasesFit (quotaStep u loc svc w step).store := by
  cases step with
  | create ctx req now draws =>
    have hbefore : AliasesFit (CreateCall.mk w.settings ctx req now draws w.store).before := h
    exact aliasesFit_call hbefore
  | importCSV ctx reads now draws => exact aliasesFit_chained (importCalls_chained reads w.store) h
  | update ctx id req now =>
    dsimp only [quotaStep]
    rcases Update_cases u loc svc w.settings ctx id req now w.store with
      ⟨e, he⟩ | ⟨link, edit, -, -, -, -, hok⟩
    · rw [he]
      exact h
    · have hlinks : (w.store.editLink edit.link edit.tags edit.rules ctx.ownerID now).links =
          (w.store.updateLinks (selects edit.link.id ctx.ownerID)
            (editRow edit.link now)).links := by
        unfold editLink
        cases edit.tags <;> cases edit.rules <;> rfl
      have hedited : AliasesFit
          (w.store.updateLinks (selects edit.link.id ctx.ownerID) (editRow edit.link now)) :=
        aliasesFit_updateLinks _ (fun row => rfl) h
      rw [hok]
      unfold AliasesFit at hedited ⊢
      rw [hlinks]
      exact hedited
  | delete ctx id now =>
    dsimp only [quotaStep]
    unfold Delete
    split
    · exact h
    · rcases w.store.DeleteLink_cases id ctx.ownerID now with ⟨e, he⟩ | ⟨uid, -, -, hok⟩
      · rw [he]
        exact h
      · rw [hok]
        exact aliasesFit_updateLinks _ (fun row => rfl) h
  | bulk ctx req now =>
    dsimp only [quotaStep]
    rcases Bulk_cases u ctx req now w.store with
      ⟨res, names, linkTags, hres, -⟩ | ⟨selected, set, hset, hok⟩
    · rw [hres]
      exact h
    · rw [hok]
      exact aliasesFit_updateLinks _ (fun row => (hset row).aliasName) h
  | prune grace limit now =>
    intro aliasName hmem
    exact h aliasName ((List.filter_sublist.map LinkRow.aliasName).subset hmem)
  | configure settings => exact h

theorem aliasesFit_run (w : QuotaWorld) (steps : List QuotaStep) (h : AliasesFit w.store) :
    AliasesFit (quotaRun u loc svc w steps).store := by
  induction steps generalizing w with
  | nil => exact h
  | cons step steps ih => exact ih _ (aliasesFit_step w step h)

end

/-! ## The address of a link -/

/-- A public URL: a scheme, a host that may have a port, and slashes. -/
def PublicAddress (publicURL scheme authority host : GoString) : Prop :=
  Scheme scheme ∧ parseHost authority = some host ∧ (splitHostPort host).1 ≠ [] ∧
    ∃ n, publicURL = scheme ++ 0x3A :: 0x2F :: 0x2F :: (authority ++ List.replicate n 0x2F)

/-- A byte of an alias stands in an address as it is. -/
theorem aliasByte_segment (c : UInt8) : isAliasByte c →
    shouldEscape c .pathSegment = false ∧ shouldEscape c .path = false ∧ c ≠ 0x2F :=
  Lib.forall_byte c (by decide +kernel)

theorem pathEscape_alias {aliasName : GoString} (h : AliasFits aliasName) :
    pathEscape aliasName = aliasName :=
  escape_plain fun c hc => (aliasByte_segment c (h.2 c hc)).1

theorem getLast?_append_ne {s t : GoString} (hne : t ≠ []) (h : (0x2F : UInt8) ∉ t) :
    (s ++ t).getLast? ≠ some 0x2F := by
  rw [List.getLast?_append_of_ne_nil s hne]
  exact fun hlast => h (List.mem_of_getLast? hlast)

/-- What begins with a letter and ends in a byte of an alias is not trimmed. -/
theorem trimSpace_address {c : UInt8} {s aliasName : GoString} (hc : isAsciiLetter c)
    (h : AliasFits aliasName) : trimSpace (c :: s ++ aliasName) = c :: s ++ aliasName := by
  have hletter : 0x21 ≤ c.toNat ∧ c.toNat ≤ 0x7E := by
    obtain ⟨hlow, hhigh, -⟩ := (address_byte c).2.1 ((address_byte c).1 hc)
    omega
  obtain ⟨front, last, rfl⟩ : ∃ front last, aliasName = front ++ [last] :=
    ⟨_, _, (List.dropLast_append_getLast h.1).symm⟩
  have hlast := isAliasByte_visible (h.2 last (by simp))
  apply trimSpace_eq_self
  · intro r hr
    rw [List.cons_append, runes_ascii_cons (by omega), List.head?_cons, Option.mem_some_iff] at hr
    rw [← hr]
    exact isSpace_visible hletter
  · intro r hr
    rw [← List.append_assoc, runes_append_ascii (by omega), runes_ascii_cons (by omega),
      List.getLast?_append_of_ne_nil _ (List.cons_ne_nil _ _)] at hr
    rw [List.mem_singleton.mp (List.mem_of_getLast? hr)]
    exact isSpace_visible hlast

/-- The code of an address whose host is one of the deployment. -/
theorem shortCode_address (server : Server) {scheme authority host aliasName : GoString}
    (hscheme : Scheme scheme) (hhost : parseHost authority = some host)
    (hours : Http.isShortHost server (splitHostPort host).1 = true) (halias : AliasFits aliasName) :
    shortCode server (scheme ++ 0x3A :: 0x2F :: 0x2F :: (authority ++ 0x2F :: aliasName)) =
      .ok aliasName := by
  have hraw : trimSpace (scheme ++ 0x3A :: 0x2F :: 0x2F :: (authority ++ 0x2F :: aliasName)) =
      scheme ++ 0x3A :: 0x2F :: 0x2F :: (authority ++ 0x2F :: aliasName) := by
    obtain ⟨c, rest, rfl, hletter, -⟩ := hscheme
    have hform : c :: rest ++ 0x3A :: 0x2F :: 0x2F :: (authority ++ 0x2F :: aliasName) =
        c :: (rest ++ 0x3A :: 0x2F :: 0x2F :: (authority ++ [0x2F])) ++ aliasName := by
      simp
    rw [hform]
    exact trimSpace_address hletter halias
  have hpath : ∀ b ∈ 0x2F :: aliasName, shouldEscape b .path = false :=
    List.forall_mem_cons.mpr ⟨by decide, fun b hb => (aliasByte_segment b (halias.2 b hb)).2.1⟩
  have hrooted : [0x2F] <+: 0x2F :: aliasName := ⟨aliasName, rfl⟩
  have hparse := Url.parse_address server.u hscheme hhost (.inr hrooted) hpath
  have hcontains : containsScheme
      (scheme ++ 0x3A :: 0x2F :: 0x2F :: (authority ++ 0x2F :: aliasName)) = true :=
    decide_eq_true ⟨scheme, authority ++ 0x2F :: aliasName, List.append_assoc ..⟩
  have hslash : (0x2F : UInt8) ∉ aliasName :=
    fun hmem => (aliasByte_segment _ (halias.2 _ hmem)).2.2 rfl
  have htrim : trimByte 0x2F (0x2F :: aliasName) = aliasName := by
    have hfirst : aliasName.dropWhile (· == 0x2F) = aliasName := by
      rw [List.dropWhile_eq_self_iff]
      intro hlength heq
      exact hslash (by simpa using (beq_iff_eq.mp heq) ▸ List.getElem_mem hlength)
    have hlast : aliasName.rdropWhile (· == 0x2F) = aliasName := by
      rw [List.rdropWhile_eq_self_iff]
      intro hne heq
      exact hslash ((beq_iff_eq.mp heq) ▸ List.getLast_mem hne)
    rw [trimByte, List.dropWhile_cons_of_pos (by decide), hfirst, hlast]
  have hne : scheme ++ 0x3A :: 0x2F :: 0x2F :: (authority ++ 0x2F :: aliasName) ≠ [] := by
    simp
  have hours : Http.isShortHost server (Url.hostname
      { scheme := toLower server.u scheme, host := host, path := 0x2F :: aliasName }) = true :=
    hours
  unfold shortCode
  dsimp only
  rw [hraw, if_neg hne, hcontains, if_neg (by simp), hparse]
  dsimp only
  rw [hours, if_neg (by simp), htrim, if_neg (not_or.mpr ⟨halias.1, hslash⟩)]

/-- A printed address begins with its scheme and its authority. -/
theorem toText_address {scheme host : GoString} (hscheme : scheme ≠ []) (hhost : host ≠ []) :
    ({ scheme := scheme, host := host } : Url).toText =
      scheme ++ 0x3A :: 0x2F :: 0x2F :: escape .host host := by
  simp [Url.toText, Url.authorityText, Url.escapedPath, hscheme, hhost, escape]

/-- A short domain that the settings accept: a host that is read as itself. -/
theorem host_of_normalHost {u : Unicode} {name : GoString} (h : NormalHost u name) :
    parseHost (escape .host name) = some name ∧ (splitHostPort name).1 = name := by
  have hbare : ∀ b ∈ lit "/:@ \t\r\n", b ∉ name := by
    intro b hb hmem
    have hany := h.bare
    rw [bareHost, Bool.not_eq_true', containsAny, List.any_eq_false] at hany
    exact hany b hmem (List.contains_iff_mem.mpr hb)
  have hslash := hbare 0x2F (by decide)
  have hcolon := hbare 0x3A (by decide)
  have hat := hbare 0x40 (by decide)
  have hvalid := h.valid
  unfold validHost at hvalid
  split at hvalid
  · cases hvalid
  · rename_i url hparse
    rw [Bool.and_eq_true, Bool.and_eq_true, beq_iff_eq, beq_iff_eq] at hvalid
    obtain ⟨hhost, hread, hpercent, hopen⟩ :=
      parseHost_of_hostname hparse hvalid.2 hslash hcolon hat
    refine ⟨parseHost_escape_self hread hpercent hopen hcolon, ?_⟩
    rw [← hhost]
    exact hvalid.2.trans hhost.symm

theorem equalFold_self (u : Unicode) (s : GoString) : equalFold u s s = true := beq_self_eq_true _

theorem scheme_toLower (u : Unicode) {scheme : GoString} (h : Scheme scheme) :
    Scheme (toLower u scheme) := by
  have hletters : ∀ c, isAsciiLetter c → isAsciiLetter (UInt8.ofNat (asciiLower c.toNat)) :=
    fun c => Lib.forall_byte c (by decide +kernel)
  have hbytes : ∀ c, isSchemeByte c → isSchemeByte (UInt8.ofNat (asciiLower c.toNat)) :=
    fun c => Lib.forall_byte c (by decide +kernel)
  have hascii : ∀ b ∈ scheme, b.toNat < 0x80 := by
    intro b hb
    have hhigh := ((address_byte b).2.1 (h.bytes b hb)).2.1
    omega
  rw [toLower_ascii u hascii]
  obtain ⟨c, rest, rfl, hletter, hrest⟩ := h
  refine ⟨_, _, List.map_cons, hletters c hletter, fun b hb => ?_⟩
  obtain ⟨d, hd, rfl⟩ := List.mem_map.mp hb
  exact hbytes d (hrest d hd)

section

variable {server : Server} {scheme authority host : GoString}

/-- The public URL without its slashes. -/
theorem trimRightByte_public
    (hpublic : PublicAddress server.links.publicURL scheme authority host) :
    trimRightByte 0x2F server.links.publicURL =
      scheme ++ 0x3A :: 0x2F :: 0x2F :: authority := by
  obtain ⟨-, hhost, hname, n, hurl⟩ := hpublic
  have hne : authority ≠ [] := by
    rintro rfl
    cases hhost
    exact hname rfl
  have hslash : (0x2F : UInt8) ∉ authority := fun hmem =>
    (isAuthorityByte_iff.mp (authority_of_parseHost hhost _ hmem)).2.1 rfl
  have hlast : (scheme ++ 0x3A :: 0x2F :: 0x2F :: authority).getLast? ≠ some 0x2F := by
    have hform : scheme ++ 0x3A :: 0x2F :: 0x2F :: authority =
        (scheme ++ [0x3A, 0x2F, 0x2F]) ++ authority := by simp
    rw [hform]
    exact getLast?_append_ne hne hslash
  have hform : server.links.publicURL =
      (scheme ++ 0x3A :: 0x2F :: 0x2F :: authority) ++ List.replicate n 0x2F := by
    rw [hurl]
    simp
  rw [hform, trimRightByte_replicate hlast]

/-- The public URL names the public host. -/
theorem isShortHost_public (hpublic : PublicAddress server.links.publicURL scheme authority host) :
    Http.isShortHost server (splitHostPort host).1 = true := by
  obtain ⟨hscheme, hhost, hname, n, hurl⟩ := hpublic
  have hrooted : List.replicate n (0x2F : UInt8) = [] ∨
      [0x2F] <+: List.replicate n (0x2F : UInt8) := by
    cases n with
    | zero => exact .inl rfl
    | succ n => exact .inr ⟨List.replicate n 0x2F, rfl⟩
  have hslashes : ∀ c ∈ List.replicate n (0x2F : UInt8), shouldEscape c .path = false := by
    intro c hc
    rw [List.eq_of_mem_replicate hc]
    decide
  have hparse := Url.parse_address server.u hscheme hhost hrooted hslashes
  unfold Http.isShortHost
  rw [hurl, hparse]
  dsimp only [Url.hostname]
  rw [equalFold_self, bne_iff_ne.mpr hname]
  rfl

/-- The address of a link on the default domain. -/
theorem shortCode_default (hpublic : PublicAddress server.links.publicURL scheme authority host)
    {link : Link} (hdomain : link.domain = []) (halias : AliasFits link.aliasName) :
    shortCode server (ShortURL server.u server.links link) = .ok link.aliasName := by
  have hbase := trimRightByte_public hpublic
  have hours := isShortHost_public hpublic
  unfold ShortURL
  dsimp only
  rw [if_pos hdomain, hbase, pathEscape_alias halias]
  have hform : scheme ++ 0x3A :: 0x2F :: 0x2F :: authority ++ 0x2F :: link.aliasName =
      scheme ++ 0x3A :: 0x2F :: 0x2F :: (authority ++ 0x2F :: link.aliasName) := by simp
  rw [hform]
  exact shortCode_address server hpublic.1 hpublic.2.1 hours halias

/-- The address of a link on a short domain. -/
theorem shortCode_domain (hpublic : PublicAddress server.links.publicURL scheme authority host)
    {link : Link} (hne : link.domain ≠ []) (hdomain : link.domain ∈ server.settings.shortDomains)
    (hnormal : NormalHost server.u link.domain) (halias : AliasFits link.aliasName) :
    shortCode server (ShortURL server.u server.links link) = .ok link.aliasName := by
  have hbase := trimRightByte_public hpublic
  obtain ⟨hread, hself⟩ := host_of_normalHost hnormal
  have hparse := Url.parse_address server.u hpublic.1 hpublic.2.1 (.inl rfl) (by simp)
  rw [List.append_nil] at hparse
  have hhost : host ≠ [] := by
    rintro rfl
    exact hpublic.2.2.1 rfl
  have hlower := scheme_toLower server.u hpublic.1
  have hours : Http.isShortHost server (splitHostPort link.domain).1 = true := by
    rw [hself]
    unfold Http.isShortHost
    have hany : (server.settings.shortDomains.any fun configured =>
        equalFold server.u link.domain configured) = true :=
      List.any_eq_true.mpr ⟨link.domain, hdomain, equalFold_self server.u link.domain⟩
    rw [hany, Bool.or_true, bne_iff_ne.mpr hne]
    rfl
  have hescaped : escape .host link.domain ≠ [] := by
    intro hnil
    rw [hnil] at hread
    exact hne (Option.some.inj hread).symm
  have htrim : trimRightByte 0x2F (toLower server.u scheme ++ 0x3A :: 0x2F :: 0x2F ::
      escape .host link.domain) =
      toLower server.u scheme ++ 0x3A :: 0x2F :: 0x2F :: escape .host link.domain := by
    have hlast : (toLower server.u scheme ++ 0x3A :: 0x2F :: 0x2F ::
        escape .host link.domain).getLast? ≠ some 0x2F := by
      have hform : toLower server.u scheme ++ 0x3A :: 0x2F :: 0x2F :: escape .host link.domain =
          (toLower server.u scheme ++ [0x3A, 0x2F, 0x2F]) ++ escape .host link.domain := by simp
      rw [hform]
      exact getLast?_append_ne hescaped fun hmem => (escape_host_mem hmem).2.1 rfl
    have hnone := trimRightByte_replicate hlast 0
    rw [List.replicate_zero, List.append_nil] at hnone
    exact hnone
  unfold ShortURL
  dsimp only
  rw [if_neg hne, hbase, hparse]
  dsimp only
  rw [if_neg hhost, toText_address hlower.ne_nil hne, htrim, pathEscape_alias halias]
  have hform : toLower server.u scheme ++ 0x3A :: 0x2F :: 0x2F :: escape .host link.domain ++
      0x2F :: link.aliasName = toLower server.u scheme ++ 0x3A :: 0x2F :: 0x2F ::
        (escape .host link.domain ++ 0x2F :: link.aliasName) := by simp
  rw [hform]
  exact shortCode_address server hlower hread hours halias

/-- The short URL of a link leads back to it: for every public URL of a scheme and a host, all
short domains that the settings accept, and every row that a run of the service has stored, on the
default domain or on one of those. -/
theorem shortCode_ShortURL (server : Server)
    (hpublic : PublicAddress server.links.publicURL scheme authority host)
    {input : RuntimeSettingsInput}
    (hsettings : NormalizeRuntimeSettings server.u input = .ok server.settings)
    {w : QuotaWorld} (hempty : w.store.links = []) (steps : List QuotaStep) {row : LinkRow}
    (hrow : row ∈ (quotaRun server.u server.loc server.links w steps).store.links)
    (hdomain : row.domain.getD [] = [] ∨ row.domain.getD [] ∈ server.settings.shortDomains) :
    let link := (quotaRun server.u server.loc server.links w steps).store.toLink server.loc row
    shortCode server (ShortURL server.u server.links link) = .ok link.aliasName := by
  intro link
  have hstart : AliasesFit w.store := by
    unfold AliasesFit
    rw [hempty]
    nofun
  have halias : AliasFits link.aliasName :=
    aliasesFit_run w steps hstart row.aliasName (List.mem_map_of_mem hrow)
  by_cases hne : link.domain = []
  · exact shortCode_default hpublic hne halias
  · have hmem : link.domain ∈ server.settings.shortDomains := hdomain.resolve_left hne
    have hnormal := (normalizeRuntimeHosts_normal server.u
      (normalizeRuntimeSettings_ok server.u hsettings).1.2.2.2.1).2 link.domain hmem
    exact shortCode_domain hpublic hne hmem hnormal halias

end

/-- Settings with one short domain. -/
def domainSettings : RuntimeSettingsInput where
  aliasMode := lit "random"
  healthCheckIntervalSeconds := 3600
  shortDomains := [lit "go.example"]

/-- A deployment at a port, its public URL with a slash at the end. -/
def portServer : Server where
  u := .ascii
  loc := plainLocale
  zone := .utc
  links := { publicURL := lit "HTTP://[::1]:8080/" }
  settings := domainSettings
  ipMode := []
  encodeQR _ _ := none
  trendRounds := 0

/-- A link is filed under the short domain. -/
def domainStep : QuotaStep :=
  .create {} { destinationURL := lit "https://example.org/", aliasName := lit "AbC",
               domain := lit "GO.example" } 0
    fun _ => ⟨default, 0, none⟩

/-- The row of that link. -/
def domainRow : LinkRow where
  id := default
  aliasName := lit "AbC"
  destinationURL := lit "https://example.org/"
  domain := some (lit "go.example")

/-- It is shown as `http://go.example/AbC`, and found again. -/
theorem shortCode_go_example :
    let link := (quotaRun portServer.u portServer.loc portServer.links ⟨{}, domainSettings⟩
      [domainStep]).store.toLink portServer.loc domainRow
    shortCode portServer (ShortURL portServer.u portServer.links link) = .ok link.aliasName :=
  shortCode_ShortURL portServer
    ⟨⟨0x48, lit "TTP", rfl, by decide, by decide +kernel⟩, (by decide :
      parseHost (lit "[::1]:8080") = some (lit "[::1]:8080")), by decide, 1,
      by decide⟩
    (by decide : NormalizeRuntimeSettings .ascii domainSettings = .ok domainSettings) rfl
    [domainStep] (by decide) (.inr (by decide))

end Purels.Properties
