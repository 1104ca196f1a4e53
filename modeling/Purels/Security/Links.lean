import Purels.Domain.Models
import Purels.Go.Url

/-!
# Checking what a link is made of

The validators of package `security` that the link service calls.

* `NormalizeTitle`, `NormalizeTags`, `NormalizeAlias`.
* `IsBotUA` and `DeviceClass`, the classes a divert rule matches on.
* `ValidateDestination`, which decides by `parseRequestURI`, and `HostDenied`,
  which decides by `Url.parse`.
* `acceptedHost`: the URL a destination was accepted as.
-/

namespace Purels.Security

open Go

def maxTitleLength : Nat := 255
def maxTagLength : Nat := 64
def maxTagsPerLink : Nat := 20

/-! ## Titles, tags and aliases -/

/-- `NormalizeTitle`. -/
def NormalizeTitle (title : GoString) : Except ServiceError GoString :=
  let title := trimSpace title
  if (runes title).length > maxTitleLength then
    .error (.invalid "title must be at most 255 characters")
  else .ok title

section

variable (u : Unicode)

/-- `tagPattern`: letters, digits, underscore and hyphen, at least one. -/
def tagPattern (name : GoString) : Bool :=
  name != [] && (runes name).all fun r =>
    u.isLetter r.code || u.isNumber r.code || r.code == 0x5F || r.code == 0x2D

/-- The loop of `NormalizeTags`; `out` holds the tags kept so far. -/
def normalizeTagsFrom (out : List GoString) : List GoString → Except ServiceError (List GoString)
  | [] => .ok out
  | raw :: tags =>
    let name := toLower u (trimSpace raw)
    if name = [] then normalizeTagsFrom out tags
    else if (runes name).length > maxTagLength then
      .error (.invalid "tag must be at most 64 characters")
    else if !tagPattern u name then .error (.tagCharacters name)
    else if name ∈ out then normalizeTagsFrom out tags
    else normalizeTagsFrom (out ++ [name]) tags

/-- One tag of the loop. -/
theorem normalizeTagsFrom_cons (out : List GoString) (raw : GoString) (tags : List GoString) :
    normalizeTagsFrom u out (raw :: tags) =
      if toLower u (trimSpace raw) = [] then normalizeTagsFrom u out tags
      else if (runes (toLower u (trimSpace raw))).length > maxTagLength then
        .error (.invalid "tag must be at most 64 characters")
      else if !tagPattern u (toLower u (trimSpace raw)) then
        .error (.tagCharacters (toLower u (trimSpace raw)))
      else if toLower u (trimSpace raw) ∈ out then normalizeTagsFrom u out tags
      else normalizeTagsFrom u (out ++ [toLower u (trimSpace raw)]) tags :=
  rfl

/-- `NormalizeTags`. -/
def NormalizeTags (tags : List GoString) : Except ServiceError (List GoString) :=
  match normalizeTagsFrom u [] tags with
  | .error e => .error e
  | .ok out =>
    if out.length > maxTagsPerLink then .error (.invalid "a link may have at most 20 tags")
    else .ok out

/-- The paths the server serves itself. -/
def reserved : List GoString :=
  [lit "api", lit "admin", lit "login", lit "register", lit "healthz", lit "readyz",
    lit "metrics", lit "favicon.ico", lit "robots.txt"]

/-- `AliasReserved`. -/
def AliasReserved (aliasName : GoString) : Bool := reserved.contains (toLower u aliasName)

/-- `aliasPattern`: a letter or digit, then two to sixty-three more characters. -/
def aliasPattern (aliasName : GoString) : Bool :=
  match aliasName with
  | [] => false
  | c :: rest =>
    (isAsciiLetter c || isDigit c) && 2 ≤ rest.length && rest.length ≤ 63 &&
      rest.all fun c => isAsciiLetter c || isDigit c || c == 0x5F || c == 0x2D

/-- `ValidateAlias`. -/
def ValidateAlias (aliasName : GoString) : Except ServiceError Unit :=
  if AliasReserved u aliasName then .error (.invalid "alias is reserved")
  else if !aliasPattern aliasName then
    .error (.invalid "alias must be 3-64 ASCII letters, digits, underscore or hyphen")
  else .ok ()

/-- `NormalizeAlias`. -/
def NormalizeAlias (aliasName : GoString) : Except ServiceError GoString :=
  if AliasReserved u aliasName then .error (.invalid "alias is reserved")
  else if !aliasPattern aliasName then
    .error (.invalid "alias must be 3-64 ASCII letters, digits, underscore or hyphen")
  else .ok aliasName

/-- `NormalizeAlias` is `ValidateAlias`, and leaves the alias as it is. -/
theorem NormalizeAlias_eq (aliasName : GoString) :
    NormalizeAlias u aliasName = (ValidateAlias u aliasName).map fun _ => aliasName := by
  unfold NormalizeAlias ValidateAlias
  split_ifs <;> rfl

/-! ## User agents -/

/-- `strings.Contains` for one of several markers. -/
def containsMarker (lowered : GoString) (markers : List GoString) : Bool :=
  markers.any fun marker => decide (marker <:+: lowered)

def botMarkers : List GoString :=
  [lit "bot", lit "crawler", lit "spider", lit "curl/", lit "wget"]

def tabletMarkers : List GoString := [lit "ipad", lit "tablet"]

def mobileMarkers : List GoString := [lit "mobile", lit "android", lit "iphone", lit "ipod"]

/-- `IsBotUA`. -/
def IsBotUA (userAgent : GoString) : Bool := containsMarker (toLower u userAgent) botMarkers

/-- The vocabulary of a device rule: what `DeviceClass` can return. -/
def deviceClasses : List GoString :=
  [lit "unknown", lit "bot", lit "tablet", lit "mobile", lit "desktop"]

/-- `IsDeviceClass`. -/
def IsDeviceClass (value : GoString) : Bool := deviceClasses.contains value

/-- `DeviceClass`. -/
def DeviceClass (userAgent : GoString) : GoString :=
  if userAgent = [] then lit "unknown"
  else if IsBotUA u userAgent then lit "bot"
  else
    let lowered := toLower u userAgent
    if containsMarker lowered tabletMarkers then lit "tablet"
    else if containsMarker lowered mobileMarkers then lit "mobile"
    else lit "desktop"

/-! ## Generated aliases -/

/-- The digits of a code, most significant first. -/
def alphabet : GoString := lit "0123456789abcdefghijklmnopqrstuvwxyzABCDEFGHIJKLMNOPQRSTUVWXYZ"

/-- The loop of `EncodeBase36`, filling the buffer from its end. -/
def base36Digits : Nat → Nat → GoString → GoString
  | 0, _, digits => digits
  | room + 1, value, digits =>
    if value = 0 then digits
    else base36Digits room (value / 36) (alphabet.getD (value % 36) 0 :: digits)

/-- `EncodeBase36`.  Thirteen digits hold every positive `int64`. -/
def EncodeBase36 (value : Nat) : GoString :=
  if value = 0 then lit "0" else base36Digits 13 value []

/-- `RandomString`: one character for each random byte. -/
def randomString (bytes : List UInt8) : GoString :=
  bytes.map fun b => alphabet.getD (b.toNat % alphabet.length) 0

example : EncodeBase36 46655 = lit "zzz" := by decide

/-! ## Destinations -/

/-- `isLocalHost`. -/
def isLocalHost (host : GoString) : Bool :=
  if equalFold u host (lit "localhost") || host == [] then true
  else
    match parseIP host with
    | some ip => isLoopback ip || isPrivate ip || isLinkLocalUnicast ip || isUnspecified ip
    | none => false

/-- `strings.Trim` of square brackets. -/
def trimBrackets (host : GoString) : GoString :=
  (host.dropWhile fun c => c == 0x5B || c == 0x5D).rdropWhile fun c => c == 0x5B || c == 0x5D

/-- `ValidateDestination`. -/
def ValidateDestination (raw : GoString) : Except ServiceError Unit :=
  if raw.length = 0 ∨ raw.length > 8192 then
    .error (.invalid "destination URL must be 1-8192 characters")
  else if (runes raw).any fun r => r.code < 0x20 || r.code == 0x7F then
    .error (.invalid "destination URL contains control characters")
  else
    match parseRequestURI u raw with
    | none => .error (.invalid "destination URL is invalid")
    | some parsed =>
      if parsed.host = [] then .error (.invalid "destination URL is invalid")
      else if parsed.scheme ≠ lit "http" ∧ parsed.scheme ≠ lit "https" then
        .error (.invalid "destination URL must use http or https")
      else if parsed.user ≠ none then
        .error (.invalid "destination URL must not include credentials")
      else if isLocalHost u (trimBrackets parsed.hostname) then
        .error (.invalid "destination host is not allowed")
      else .ok ()

/-- The host is an entry or a subdomain of one. -/
def covers (entry host : GoString) : Bool :=
  host == entry || decide (0x2E :: entry <:+ host)

/-- `HostDenied`. -/
def HostDenied (destination : GoString) (denylist : List GoString) : Bool :=
  if denylist = [] then false
  else
    match Url.parse u destination with
    | none => false
    | some parsed => denylist.any fun entry => covers entry (toLower u parsed.hostname)

/-! ## What has been accepted -/

variable {u}

/-- A caller's alias is taken as it is. -/
theorem NormalizeAlias_ok {aliasName out : GoString} (h : NormalizeAlias u aliasName = .ok out) :
    out = aliasName ∧ aliasPattern out := by
  unfold NormalizeAlias at h
  split_ifs at h with hreserved hpattern
  obtain rfl := Except.ok.inj h
  exact ⟨rfl, by simpa using hpattern⟩


theorem hash_not_mem_of_aliasPattern {aliasName : GoString} (h : aliasPattern aliasName) :
    (0x23 : UInt8) ∉ aliasName := by
  unfold aliasPattern at h
  split at h
  · simp
  · rename_i c rest
    simp only [Bool.and_eq_true, List.all_eq_true] at h
    rintro hmem
    rcases List.mem_cons.mp hmem with rfl | hmem
    · exact absurd h.1.1.1 (by decide)
    · exact absurd (h.2 _ hmem) (by decide)

/-- A digit of a generated alias is one of the alphabet. -/
theorem alphabet_getD_ne_hash (i : Nat) : alphabet.getD i 0 ≠ 0x23 := by
  have hall : ∀ c ∈ alphabet, c ≠ 0x23 := by decide +kernel
  rw [List.getD_eq_getElem?_getD]
  rcases hget : alphabet[i]? with _ | c
  · decide
  · exact hall c (List.mem_of_getElem? hget)

theorem hash_not_mem_base36Digits (room value : Nat) {digits : GoString}
    (h : (0x23 : UInt8) ∉ digits) : (0x23 : UInt8) ∉ base36Digits room value digits := by
  induction room generalizing value digits with
  | zero => exact h
  | succ room ih =>
    rw [base36Digits]
    split_ifs
    · exact h
    · refine ih _ fun hmem => ?_
      rcases List.mem_cons.mp hmem with heq | hmem
      · exact alphabet_getD_ne_hash _ heq.symm
      · exact h hmem

theorem hash_not_mem_EncodeBase36 (value : Nat) : (0x23 : UInt8) ∉ EncodeBase36 value := by
  unfold EncodeBase36
  split_ifs
  · decide
  · exact hash_not_mem_base36Digits 13 value (by simp)

theorem hash_not_mem_randomString (bytes : List UInt8) :
    (0x23 : UInt8) ∉ randomString bytes := by
  intro hmem
  obtain ⟨b, -, hb⟩ := List.mem_map.mp hmem
  exact alphabet_getD_ne_hash _ hb

/-- An accepted destination is a URL with a host and without credentials. -/
theorem ValidateDestination_ok {raw : GoString} (h : ValidateDestination u raw = .ok ()) :
    raw.length ≤ 8192 ∧ raw.contains 0 = false ∧
      ∃ parsed, parseRequestURI u raw = some parsed ∧ parsed.host ≠ [] ∧ parsed.user = none ∧
        isLocalHost u (trimBrackets parsed.hostname) = false := by
  unfold ValidateDestination at h
  split_ifs at h with hlen hctl
  split at h
  · simp at h
  rename_i parsed hparse
  split_ifs at h with hhost hscheme huser hlocal
  have hctl' := containsCTLByte_of_parse u hparse
  have hzero : raw.contains 0 = false := by
    rw [Bool.eq_false_iff, ne_eq, List.contains_iff_mem]
    intro hmem
    simpa using List.any_eq_false.mp hctl' 0 hmem
  exact ⟨by omega, hzero, parsed, hparse, hhost, not_not.mp huser, by simpa using hlocal⟩

/-- Denial and acceptance see the same host, when what follows the first `#` can
be percent-decoded; otherwise nothing is denied. -/
theorem HostDenied_iff {raw : GoString} {parsed : Url} {denylist : List GoString}
    (hparse : parseRequestURI u raw = some parsed) (hhost : parsed.host ≠ [])
    (huser : parsed.user = none) :
    HostDenied u raw denylist = true ↔
      fragmentDecodes raw ∧ ∃ entry ∈ denylist, covers entry (toLower u parsed.hostname) := by
  unfold HostDenied
  by_cases hfrag : fragmentDecodes raw
  · obtain ⟨url, hurl, hsame, -⟩ := parse_of_parseRequestURI u hparse hhost huser hfrag
    have hname : url.hostname = parsed.hostname := by rw [Url.hostname, Url.hostname, hsame]
    split_ifs with hnil
    · simp [hnil]
    · simp [hurl, hname, hfrag]
  · simp [parse_eq_none_of_fragment u hfrag, hfrag]

end

end Purels.Security
