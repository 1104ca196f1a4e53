import Purels.Go.NetIP

/-!
# URLs

The parser and the printer of `net/url`.  Acceptance of a destination is
decided by `parseRequestURI` and every later look at it goes through `Url.parse`,
so the theorem of this module is how far the two agree.

* `unescape`, `escape` and `shouldEscape`, one mode for each URL component.
* `parseHost`, `parseAuthority` and `parse`, in the order of the source.
* `hostname`, `escapedPath` and `Url.toText`, the accessors.
* `parse_of_parseRequestURI`: a URL with a host that `parseRequestURI` accepts
  is accepted by `Url.parse`, with the same scheme and host, exactly when what
  follows the first `#` can be percent-decoded.
-/

namespace Purels.Go

/-! ## Escaping -/

/-- The component a string is escaped for. -/
inductive Encoding where
  | path
  | pathSegment
  | host
  | zone
  | userPassword
  | queryComponent
  | fragment
  deriving DecidableEq

/-- `shouldEscape`: whether the byte must be percent-encoded in the component. -/
def shouldEscape (c : UInt8) (mode : Encoding) : Bool :=
  if (0x61 ≤ c.toNat && c.toNat ≤ 0x7A) || (0x41 ≤ c.toNat && c.toNat ≤ 0x5A) || isDigit c then
    false
  else if (mode = .host ∨ mode = .zone) ∧ c ∈ lit "!$&'()*+,;=:[]<>\"" then false
  else if c ∈ lit "-_.~" then false
  else if c ∈ lit "$&+,/:;=?@" then
    match mode with
    | .path => c == 0x3F
    | .pathSegment => c ∈ lit "/;,?"
    | .userPassword => c ∈ lit "@/?:"
    | .queryComponent => true
    | .fragment => false
    | .host | .zone => true
  else if mode = .fragment ∧ c ∈ lit "!()*" then false
  else true

/-- The percent-encoded byte `%hl` may stand in the component.  A host may
only escape bytes outside ASCII and the percent sign itself, and a zone only
bytes that could have been written directly. -/
def escapeAllowed (mode : Encoding) (h l : UInt8) : Bool :=
  match mode with
  | .host => 8 ≤ unhex h || (h == 0x32 && l == 0x35)
  | .zone =>
    (h == 0x32 && l == 0x35) || unhex h * 16 + unhex l == 0x20 ||
      !shouldEscape (UInt8.ofNat (unhex h * 16 + unhex l)) .host
  | _ => true

/-- The byte may stand unescaped in the component. -/
def byteAllowed (mode : Encoding) (c : UInt8) : Bool :=
  !((mode = .host ∨ mode = .zone) ∧ c.toNat < 0x80 ∧ shouldEscape c mode)

/-- What an unescaped byte stands for: `+` is a space in a query component. -/
def plainByte (mode : Encoding) (c : UInt8) : UInt8 :=
  if c = 0x2B ∧ mode = .queryComponent then 0x20 else c

/-- `unescape`; `none` is an `EscapeError` or an `InvalidHostError`. -/
def unescape (mode : Encoding) : GoString → Option GoString
  | [] => some []
  | [c] =>
    if c = 0x25 then none
    else if byteAllowed mode c then some [plainByte mode c] else none
  | [c, d] =>
    if c = 0x25 then none
    else if byteAllowed mode c then (unescape mode [d]).map (plainByte mode c :: ·) else none
  | c :: h :: l :: rest =>
    if c = 0x25 then
      if isHex h && isHex l && escapeAllowed mode h l then
        (unescape mode rest).map (UInt8.ofNat (unhex h * 16 + unhex l) :: ·)
      else none
    else if byteAllowed mode c then
      (unescape mode (h :: l :: rest)).map (plainByte mode c :: ·)
    else none

def upperHex (n : Nat) : UInt8 := UInt8.ofNat (if n < 10 then 0x30 + n else 0x41 + n - 10)

/-- `escape`. -/
def escape (mode : Encoding) (s : GoString) : GoString :=
  s.flatMap fun c =>
    if shouldEscape c mode then
      if c = 0x20 ∧ mode = .queryComponent then [0x2B]
      else [0x25, upperHex (c.toNat / 16), upperHex (c.toNat % 16)]
    else [c]

/-- `url.PathEscape`. -/
def pathEscape (s : GoString) : GoString := escape .pathSegment s

/-! ## The parts of a URL -/

/-- `url.Userinfo`. -/
structure Userinfo where
  username : GoString
  password : Option GoString
  deriving DecidableEq

/-- `url.URL`. -/
structure Url where
  scheme : GoString := []
  opaquePart : GoString := []
  user : Option Userinfo := none
  host : GoString := []
  path : GoString := []
  rawPath : GoString := []
  omitHost : Bool := false
  forceQuery : Bool := false
  rawQuery : GoString := []
  fragment : GoString := []
  rawFragment : GoString := []
  deriving DecidableEq

/-- `validOptionalPort`: empty, or a colon and digits. -/
def validOptionalPort : GoString → Bool
  | [] => true
  | c :: rest => c == 0x3A && rest.all isDigit

def isSchemeByte (c : UInt8) : Bool :=
  (0x61 ≤ c.toNat && c.toNat ≤ 0x7A) || (0x41 ≤ c.toNat && c.toNat ≤ 0x5A) || isDigit c ||
    c == 0x2B || c == 0x2D || c == 0x2E

def isAsciiLetter (c : UInt8) : Bool :=
  (0x61 ≤ c.toNat && c.toNat ≤ 0x7A) || (0x41 ≤ c.toNat && c.toNat ≤ 0x5A)

/-- `getScheme`: the scheme and what follows its colon.  A string that does not
start with a scheme has none; one that starts with the colon is an error. -/
def getScheme (raw : GoString) : Option (GoString × GoString) :=
  let name := raw.takeWhile isSchemeByte
  match raw.dropWhile isSchemeByte with
  | 0x3A :: rest =>
    match name with
    | [] => none
    | c :: _ => if isAsciiLetter c then some (name, rest) else some ([], raw)
  | _ => some ([], raw)

/-- `validUserinfo`. -/
def validUserinfo (s : GoString) : Bool :=
  s.all fun c => isAsciiLetter c || isDigit c || c ∈ lit "-._:~!$&'()*+,;=%@"

/-- `parseHost`.  Brackets hold an IPv6 literal and nothing else, and start the
host; without brackets the only colon introduces the port. -/
def parseHost (host : GoString) : Option GoString :=
  match cutLast 0x5B host with
  | some (before, inside) =>
    if before ≠ [] then none
    else
      match cutLast 0x5D inside with
      | none => none
      | some (name, colonPort) =>
        if validOptionalPort colonPort then
          match unescape .host colonPort, unescapeZoned name with
          | some colonPort, some name =>
            match parseAddr name with
            | some addr =>
              if addr.is4 then none else some (0x5B :: name ++ 0x5D :: colonPort)
            | none => none
          | _, _ => none
        else none
  | none =>
    if validOptionalPort (host.dropWhile (· != 0x3A)) then unescape .host host else none
where
  /-- The name before a `%25` is a host, the rest a zone. -/
  unescapeZoned (name : GoString) : Option GoString :=
    match splitZone name with
    | some (address, zone) =>
      match unescape .host address, unescape .zone zone with
      | some address, some zone => some (address ++ zone)
      | _, _ => none
    | none => unescape .host name
  /-- Cut before the first `%25`. -/
  splitZone : GoString → Option (GoString × GoString)
    | [] => none
    | c :: rest =>
      if [0x25, 0x32, 0x35] <+: c :: rest then some ([], c :: rest)
      else (splitZone rest).map fun p => (c :: p.1, p.2)

/-- `parseAuthority`. -/
def parseAuthority (authority : GoString) : Option (Option Userinfo × GoString) :=
  match cutLast 0x40 authority with
  | none => (parseHost authority).map fun host => (none, host)
  | some (userinfo, host) =>
    match parseHost host with
    | none => none
    | some host =>
      if validUserinfo userinfo then
        if 0x3A ∈ userinfo then
          match unescape .userPassword (cut 0x3A userinfo).1,
              unescape .userPassword (cut 0x3A userinfo).2 with
          | some username, some password => some (some ⟨username, some password⟩, host)
          | _, _ => none
        else
          (unescape .userPassword userinfo).map fun username => (some ⟨username, none⟩, host)
      else none

/-- `stringContainsCTLByte`. -/
def containsCTLByte (s : GoString) : Bool := s.any fun c => c.toNat < 0x20 || c == 0x7F

/-- Split off the query.  A lone trailing question mark is `ForceQuery`. -/
def splitQuery (rest : GoString) : GoString × Bool × GoString :=
  if rest.getLast? = some 0x3F ∧ rest.count 0x3F = 1 then (rest.dropLast, true, [])
  else ((cut 0x3F rest).1, false, (cut 0x3F rest).2)

/-- `setPath`: the decoded path, and the raw one when it is not the default
encoding of the decoded one. -/
def setPath (p : GoString) : Option (GoString × GoString) :=
  (unescape .path p).map fun path => (path, if p = escape .path path then [] else p)

/-- The authority and path of what is left after scheme and query. -/
def parseHierarchy (viaRequest : Bool) (url : Url) (rest : GoString) : Option Url :=
  if ¬ [0x2F] <+: rest ∧ url.scheme ≠ [] then some { url with opaquePart := rest }
  else if ¬ [0x2F] <+: rest ∧ viaRequest then none
  else if ¬ [0x2F] <+: rest ∧ 0x3A ∈ (cut 0x2F rest).1 then none
  else if (url.scheme ≠ [] ∨ ¬ viaRequest ∧ ¬ [0x2F, 0x2F, 0x2F] <+: rest) ∧
      [0x2F, 0x2F] <+: rest then
    let authority := (rest.drop 2).takeWhile (· != 0x2F)
    match parseAuthority authority, setPath ((rest.drop 2).dropWhile (· != 0x2F)) with
    | some (user, host), some (path, rawPath) => some { url with user, host, path, rawPath }
    | _, _ => none
  else
    (setPath rest).map fun p =>
      { url with
        path := p.1
        rawPath := p.2
        omitHost := decide (url.scheme ≠ [] ∧ [0x2F] <+: rest) }

section

variable (u : Unicode)

/-- `url.parse`, the common part of the two entry points. -/
def parse (viaRequest : Bool) (raw : GoString) : Option Url :=
  if containsCTLByte raw then none
  else if raw = [] ∧ viaRequest then none
  else if raw = [0x2A] then some { path := [0x2A] }
  else
    match getScheme raw with
    | none => none
    | some (scheme, rest) =>
      parseHierarchy viaRequest
        { scheme := toLower u scheme
          forceQuery := (splitQuery rest).2.1
          rawQuery := (splitQuery rest).2.2 }
        (splitQuery rest).1

/-- `url.ParseRequestURI`: no fragment is split off. -/
def parseRequestURI (raw : GoString) : Option Url := parse u true raw

/-- `url.Parse`: what follows the first `#` is the fragment. -/
def Url.parse (raw : GoString) : Option Url :=
  match Go.parse u false (cut 0x23 raw).1 with
  | none => none
  | some url =>
    let frag := (cut 0x23 raw).2
    (unescape .fragment frag).map fun fragment =>
      { url with fragment, rawFragment := if frag = escape .fragment fragment then [] else frag }

end

/-! ## Accessors -/

/-- `splitHostPort`: the last colon starts a port when digits follow it. -/
def splitHostPort (hostPort : GoString) : GoString × GoString :=
  let (host, port) :=
    match cutLast 0x3A hostPort with
    | some (host, port) => if port.all isDigit then (host, port) else (hostPort, [])
    | none => (hostPort, [])
  if [0x5B] <+: host ∧ [0x5D] <:+ host then ((host.drop 1).dropLast, port) else (host, port)

/-- `URL.Hostname`. -/
def Url.hostname (url : Url) : GoString := (splitHostPort url.host).1

/-- `URL.Port`. -/
def Url.port (url : Url) : GoString := (splitHostPort url.host).2

/-- `validEncoded`. -/
def validEncoded (mode : Encoding) (s : GoString) : Bool :=
  s.all fun c => c ∈ lit "!$&'()*+,;=:@[]%" || !shouldEscape c mode

/-- `URL.EscapedPath`. -/
def Url.escapedPath (url : Url) : GoString :=
  if url.rawPath ≠ [] ∧ validEncoded .path url.rawPath ∧
      unescape .path url.rawPath = some url.path then url.rawPath
  else if url.path = [0x2A] then [0x2A]
  else escape .path url.path

/-- `URL.EscapedFragment`. -/
def Url.escapedFragment (url : Url) : GoString :=
  if url.rawFragment ≠ [] ∧ validEncoded .fragment url.rawFragment ∧
      unescape .fragment url.rawFragment = some url.fragment then url.rawFragment
  else escape .fragment url.fragment

/-- `Userinfo.String`. -/
def Userinfo.toText (user : Userinfo) : GoString :=
  escape .userPassword user.username ++
    match user.password with
    | some password => 0x3A :: escape .userPassword password
    | none => []

/-- The `//user@host` part of `URL.String`. -/
def Url.authorityText (url : Url) : GoString :=
  if url.scheme = [] ∧ url.host = [] ∧ url.user = none then []
  else if url.omitHost ∧ url.host = [] ∧ url.user = none then []
  else
    (if url.host ≠ [] ∨ url.path ≠ [] ∨ url.user ≠ none then [0x2F, 0x2F] else []) ++
      (match url.user with
        | some user => user.toText ++ [0x40]
        | none => []) ++
      escape .host url.host

/-- `URL.String`. -/
def Url.toText (url : Url) : GoString :=
  let head := if url.scheme = [] then [] else url.scheme ++ [0x3A]
  let body :=
    if url.opaquePart ≠ [] then url.opaquePart
    else
      let path := url.escapedPath
      let slash := if path ≠ [] ∧ ¬ [0x2F] <+: path ∧ url.host ≠ [] then [0x2F] else []
      let dot :=
        if head ++ url.authorityText ++ slash = [] ∧ 0x3A ∈ (cut 0x2F path).1 then [0x2E, 0x2F]
        else []
      url.authorityText ++ slash ++ dot ++ path
  head ++ body ++
    (if url.forceQuery ∨ url.rawQuery ≠ [] then 0x3F :: url.rawQuery else []) ++
    (if url.fragment ≠ [] then 0x23 :: url.escapedFragment else [])

example :
    (Url.parse Unicode.ascii (lit "HTTPS://u:p@Sho.rt:8443/a%62?q=1#f")).map
        (fun url => [url.scheme, url.hostname, url.port, url.path, url.rawQuery, url.fragment]) =
      some [lit "https", lit "Sho.rt", lit "8443", lit "/ab", lit "q=1", lit "f"] := by
  decide

/-! ## The two entry points

`#` is a byte of neither a scheme, a host nor a percent escape, so cutting the
string at it leaves scheme and host alone, and the path too unless the path
itself holds one. -/

/-- Cutting at the last `c` puts the string back together around it. -/
theorem cutLast_eq_some {c : UInt8} {s before after : GoString}
    (h : cutLast c s = some (before, after)) : s = before ++ c :: after := by
  unfold cutLast at h
  split_ifs at h with hc
  obtain ⟨rfl, rfl⟩ : _ ∧ _ := by simpa using h
  have hne : s.rdropWhile (· != c) ≠ [] := by
    intro h0
    have := (List.rdropWhile_eq_nil_iff).mp h0 c hc
    simp at this
  have hlast := List.rdropWhile_last_not (· != c) s hne
  have hlast' : (s.rdropWhile (· != c)).getLast hne = c := by simpa using hlast
  have hsplit := List.dropLast_append_getLast hne
  rw [hlast'] at hsplit
  calc s = s.rdropWhile (· != c) ++ s.rtakeWhile (· != c) :=
        (List.rdropWhile_append_rtakeWhile ..).symm
    _ = ((s.rdropWhile (· != c)).dropLast ++ [c]) ++ s.rtakeWhile (· != c) := by rw [hsplit]
    _ = _ := by simp

/-- What a string that decodes starts with: a byte that may stand unescaped, or
an escape. -/
theorem unescape_cons {mode : Encoding} {c : UInt8} {s t : GoString}
    (h : unescape mode (c :: s) = some t) :
    (c ≠ 0x25 ∧ byteAllowed mode c ∧
      ∃ t', unescape mode s = some t' ∧ t = plainByte mode c :: t') ∨
    (c = 0x25 ∧ ∃ a b rest t', s = a :: b :: rest ∧ isHex a ∧ isHex b ∧
      escapeAllowed mode a b ∧ unescape mode rest = some t' ∧
      t = UInt8.ofNat (unhex a * 16 + unhex b) :: t') := by
  rcases s with _ | ⟨a, _ | ⟨b, rest⟩⟩
  · rw [unescape] at h
    split_ifs at h with hc hok
    exact .inl ⟨hc, hok, [], by simp [unescape], (Option.some.inj h).symm⟩
  · rw [unescape] at h
    split_ifs at h with hc hok
    obtain ⟨t', ht', rfl⟩ := Option.map_eq_some_iff.mp h
    exact .inl ⟨hc, hok, t', ht', rfl⟩
  · rw [unescape] at h
    split_ifs at h with hc hesc hok
    · have hesc' : (isHex a = true ∧ isHex b = true) ∧ escapeAllowed mode a b = true := by
        simpa using hesc
      obtain ⟨t', ht', rfl⟩ := Option.map_eq_some_iff.mp h
      exact .inr ⟨hc, a, b, rest, t', rfl, hesc'.1.1, hesc'.1.2, hesc'.2, ht', rfl⟩
    · obtain ⟨t', ht', rfl⟩ := Option.map_eq_some_iff.mp h
      exact .inl ⟨hc, hok, t', ht', rfl⟩

theorem unescape_plain {mode : Encoding} {c : UInt8} {s t : GoString} (hc : c ≠ 0x25)
    (hok : byteAllowed mode c) (h : unescape mode s = some t) :
    unescape mode (c :: s) = some (plainByte mode c :: t) := by
  rcases s with _ | ⟨a, _ | ⟨b, rest⟩⟩ <;> rw [unescape]
  · rw [if_neg hc, if_pos hok, ← Option.some.inj h]
  · rw [if_neg hc, if_pos hok, h, Option.map_some]
  · rw [if_neg hc, if_pos hok, h, Option.map_some]

theorem isHex_ne_hash {c : UInt8} (h : isHex c) : c ≠ 0x23 := by
  rintro rfl
  revert h
  decide

/-- A decoded host or zone is written without a number sign. -/
theorem hash_not_mem_of_unescape {mode : Encoding} (hmode : mode = .host ∨ mode = .zone) :
    ∀ {s t : GoString}, unescape mode s = some t → (0x23 : UInt8) ∉ s
  | [], _, _ => by simp
  | c :: s, t, h => by
    rcases unescape_cons h with ⟨-, hok, t', ht', -⟩ | ⟨rfl, a, b, rest, t', rfl, ha, hb, -, ht', -⟩
    · have hc : c ≠ 0x23 := by
        rintro rfl
        rcases hmode with rfl | rfl <;> revert hok <;> decide
      simpa [hc.symm] using hash_not_mem_of_unescape hmode ht'
    · have hrest := hash_not_mem_of_unescape hmode ht'
      simp [(isHex_ne_hash ha).symm, (isHex_ne_hash hb).symm, hrest]

/-- Cutting an escaped path at a number sign leaves whole escapes. -/
theorem unescape_path_takeWhile :
    ∀ {s t : GoString}, unescape .path s = some t →
      ∃ t', unescape .path (s.takeWhile (· != 0x23)) = some t'
  | [], _, _ => ⟨[], rfl⟩
  | c :: s, t, h => by
    rcases unescape_cons h with
      ⟨hc, hok, t', ht', -⟩ | ⟨rfl, a, b, rest, t', rfl, ha, hb, -, ht', -⟩
    · by_cases hhash : c = 0x23
      · exact ⟨[], by simp [hhash, unescape]⟩
      · obtain ⟨t'', ht''⟩ := unescape_path_takeWhile ht'
        exact ⟨_, by simpa [hhash] using unescape_plain hc hok ht''⟩
    · obtain ⟨t'', ht''⟩ := unescape_path_takeWhile ht'
      refine ⟨UInt8.ofNat (unhex a * 16 + unhex b) :: t'', ?_⟩
      simp [isHex_ne_hash ha, isHex_ne_hash hb, unescape, ha, hb, escapeAllowed, ht'']

/-- A number sign that stands in an escaped path stands in the decoded one. -/
theorem hash_mem_of_unescape_path :
    ∀ {s t : GoString}, unescape .path s = some t → (0x23 : UInt8) ∈ s → (0x23 : UInt8) ∈ t
  | [], _, _, hmem => by simp at hmem
  | c :: s, t, h, hmem => by
    rcases unescape_cons h with
      ⟨-, -, t', ht', rfl⟩ | ⟨rfl, a, b, rest, t', rfl, ha, hb, -, ht', rfl⟩
    · rcases List.mem_cons.mp hmem with rfl | hmem
      · simp [plainByte]
      · exact List.mem_cons_of_mem _ (hash_mem_of_unescape_path ht' hmem)
    · have hrest : (0x23 : UInt8) ∈ rest := by
        simpa [(isHex_ne_hash ha).symm, (isHex_ne_hash hb).symm] using hmem
      exact List.mem_cons_of_mem _ (hash_mem_of_unescape_path ht' hrest)

theorem hash_not_mem_of_parseHost {s host : GoString} (h : parseHost s = some host) :
    (0x23 : UInt8) ∉ s := by
  unfold parseHost at h
  split at h
  · rename_i before inside hcut
    split_ifs at h with hbefore
    split at h
    · simp at h
    · rename_i name colonPort hcut'
      split_ifs at h with hport
      split at h
      · rename_i colonPort' name' hcolon hname
        have hs : s = 0x5B :: (name ++ 0x5D :: colonPort) := by
          rw [cutLast_eq_some hcut, cutLast_eq_some hcut', not_not.mp hbefore]; rfl
        have hname' : (0x23 : UInt8) ∉ name := hash_not_mem_of_zoned hname
        have hcolon' := hash_not_mem_of_unescape (.inl rfl) hcolon
        simp [hs, hname', hcolon']
      · simp at h
  · split_ifs at h
    exact hash_not_mem_of_unescape (.inl rfl) h
where
  hash_not_mem_of_zoned {name t : GoString} (h : parseHost.unescapeZoned name = some t) :
      (0x23 : UInt8) ∉ name := by
    unfold parseHost.unescapeZoned at h
    split at h
    · rename_i address zone hsplit
      split at h
      · rename_i ha hz
        rw [splitZone_eq_some hsplit]
        simp [hash_not_mem_of_unescape (.inl rfl) ha, hash_not_mem_of_unescape (.inr rfl) hz]
      · simp at h
    · exact hash_not_mem_of_unescape (.inl rfl) h
  splitZone_eq_some : ∀ {s a z : GoString}, parseHost.splitZone s = some (a, z) → s = a ++ z
    | [], _, _, h => by simp [parseHost.splitZone] at h
    | c :: s, a, z, h => by
      unfold parseHost.splitZone at h
      split_ifs at h
      · simp_all
      · obtain ⟨⟨a', z'⟩, hs, heq⟩ := Option.map_eq_some_iff.mp h
        obtain ⟨rfl, rfl⟩ : c :: a' = a ∧ z' = z := by simpa using heq
        simp [splitZone_eq_some hs]

theorem splitQuery_fst (rest : GoString) :
    (splitQuery rest).1 = rest.takeWhile (· != 0x3F) := by
  unfold splitQuery
  split_ifs with h
  · obtain ⟨hlast, hcount⟩ := h
    obtain ⟨before, rfl⟩ := List.getLast?_eq_some_iff.mp hlast
    have hnot : (0x3F : UInt8) ∉ before := by
      have hzero : before.count 0x3F = 0 := by simpa [List.count_append] using hcount
      exact List.count_eq_zero.mp hzero
    have hall : ∀ c ∈ before, (c != 0x3F) = true := fun c hc => by
      simpa using fun heq : c = 0x3F => hnot (heq ▸ hc)
    simp [List.takeWhile_append_of_pos hall]
  · rfl

/-- A scheme is written before its colon, in bytes none of which is a number sign. -/
theorem getScheme_eq_some {raw scheme rest : GoString} (h : getScheme raw = some (scheme, rest))
    (hne : scheme ≠ []) :
    raw = scheme ++ 0x3A :: rest ∧ (0x23 : UInt8) ∉ scheme ∧
      ∀ rest', getScheme (scheme ++ 0x3A :: rest') = some (scheme, rest') := by
  unfold getScheme at h
  have hall : ∀ c ∈ raw.takeWhile isSchemeByte, isSchemeByte c = true :=
    fun _ hc => List.mem_takeWhile_imp hc
  have hsplit := List.takeWhile_append_dropWhile (p := isSchemeByte) (l := raw)
  generalize raw.takeWhile isSchemeByte = name at h hall hsplit
  split at h
  · rename_i rest' hdrop
    rcases name with _ | ⟨c, name⟩
    · simp at h
    · simp only at h
      split_ifs at h with hc
      · obtain ⟨rfl, rfl⟩ : c :: name = scheme ∧ rest' = rest := by simpa using h
        refine ⟨by rw [← hsplit, hdrop], fun hmem => ?_, fun rest' => ?_⟩
        · exact absurd (hall _ hmem) (by decide)
        · have hcolon : isSchemeByte 0x3A = false := by decide
          unfold getScheme
          rw [List.takeWhile_append_of_pos hall, List.dropWhile_append_of_pos hall]
          simp [hcolon, hc]
      · simp_all
  · simp_all

section

variable (u : Unicode)

/-- Whether what follows the first `#` can be percent-decoded, without which
`Url.parse` fails. -/
def fragmentDecodes (raw : GoString) : Bool := (unescape .fragment (cut 0x23 raw).2).isSome

/-- A host only comes from an authority, after a scheme and two slashes. -/
theorem parseHierarchy_eq_some {base url : Url} {rest : GoString}
    (h : parseHierarchy true base rest = some url) (hbase : base.host = [])
    (hhost : url.host ≠ []) :
    base.scheme ≠ [] ∧ [0x2F, 0x2F] <+: rest ∧
      parseAuthority ((rest.drop 2).takeWhile (· != 0x2F)) = some (url.user, url.host) ∧
      setPath ((rest.drop 2).dropWhile (· != 0x2F)) = some (url.path, url.rawPath) := by
  unfold parseHierarchy at h
  split_ifs at h with h1 h2 h3 h4
  · simp [← Option.some.inj h, hbase] at hhost
  · dsimp only at h
    split at h
    · rename_i hauth hpath
      obtain rfl := (Option.some.inj h).symm
      exact ⟨by simpa using h4.1, h4.2, hauth, hpath⟩
    · simp at h
  · obtain ⟨p, -, rfl⟩ := Option.map_eq_some_iff.mp h
    simp [hbase] at hhost

/-- A scheme and an authority are read the same way by both entry points. -/
theorem parseHierarchy_authority (base : Url) (rest : GoString) {user : Option Userinfo}
    {host path rawPath : GoString} (hscheme : base.scheme ≠ []) (hslash : [0x2F, 0x2F] <+: rest)
    (hauth : parseAuthority ((rest.drop 2).takeWhile (· != 0x2F)) = some (user, host))
    (hpath : setPath ((rest.drop 2).dropWhile (· != 0x2F)) = some (path, rawPath)) :
    parseHierarchy false base rest = some { base with user, host, path, rawPath } := by
  have hone : [0x2F] <+: rest := by
    obtain ⟨rest', rfl⟩ := hslash
    exact ⟨_, rfl⟩
  unfold parseHierarchy
  simp [hone, hscheme, hslash, hauth, hpath]

theorem hash_not_mem_of_parseAuthority {s host : GoString}
    (h : parseAuthority s = some (none, host)) : (0x23 : UInt8) ∉ s := by
  unfold parseAuthority at h
  split at h
  · obtain ⟨host', hhost, -⟩ := Option.map_eq_some_iff.mp h
    exact hash_not_mem_of_parseHost hhost
  · split at h
    · simp at h
    · split_ifs at h
      · split at h <;> simp at h
      · obtain ⟨_, -, heq⟩ := Option.map_eq_some_iff.mp h
        simp at heq

/-- Cutting at a number sign after the authority only cuts the path. -/
theorem takeWhile_hash_authority {s : GoString}
    (h : (0x23 : UInt8) ∉ s.takeWhile (· != 0x2F)) :
    (s.takeWhile (· != 0x23)).takeWhile (· != 0x2F) = s.takeWhile (· != 0x2F) ∧
      (s.takeWhile (· != 0x23)).dropWhile (· != 0x2F) =
        (s.dropWhile (· != 0x2F)).takeWhile (· != 0x23) := by
  induction s with
  | nil => simp
  | cons c s ih =>
    by_cases hslash : c = 0x2F
    · simp [hslash]
    · have hc : c ≠ 0x23 := by
        rintro rfl
        simp at h
      have hs : (0x23 : UInt8) ∉ s.takeWhile (· != 0x2F) := by
        intro hmem
        exact h (by simp [hslash, hmem])
      simp [hslash, hc, ih hs]

theorem takeWhile_eq_self_of_not_mem {c : UInt8} {s : GoString} (h : c ∉ s) :
    s.takeWhile (· != c) = s :=
  List.takeWhile_eq_self_iff.mpr fun d hd => by
    simpa using fun heq : d = c => h (heq ▸ hd)

/-- `Url.parse` of what stands before the first `#` agrees with `parseRequestURI`
of the whole on the host, and on a path without a number sign. -/
theorem parse_cut_of_parseRequestURI {raw : GoString} {url : Url}
    (h : parseRequestURI u raw = some url) (hhost : url.host ≠ []) (huser : url.user = none) :
    ∃ url', parse u false (cut 0x23 raw).1 = some url' ∧ url'.host = url.host ∧
      ((0x23 : UInt8) ∉ url.path → url'.path = url.path) := by
  unfold parseRequestURI parse at h
  split_ifs at h with hctl hnil hstar
  · simp [← Option.some.inj h] at hhost
  split at h
  · simp at h
  rename_i scheme rest hscheme
  obtain ⟨hlow, hslash, hauth, hpath⟩ := parseHierarchy_eq_some h rfl hhost
  have hne : scheme ≠ [] := by
    rintro rfl
    exact hlow rfl
  obtain ⟨rfl, hnot, hagain⟩ := getScheme_eq_some hscheme hne
  -- What is left of the raw string after the cut.
  have hcut : (cut 0x23 (scheme ++ 0x3A :: rest)).1 =
      scheme ++ 0x3A :: rest.takeWhile (· != 0x23) := by
    have hall : ∀ c ∈ scheme, (c != 0x23) = true := fun c hc => by
      simpa using fun heq : c = 0x23 => hnot (heq ▸ hc)
    simp [cut, List.takeWhile_append_of_pos hall]
  have hctl' : containsCTLByte (scheme ++ 0x3A :: rest.takeWhile (· != 0x23)) = false := by
    rw [← hcut]
    rw [Bool.not_eq_true] at hctl
    exact List.any_eq_false.mpr fun c hc =>
      List.any_eq_false.mp hctl c ((List.takeWhile_prefix _).subset hc)
  -- The part before the query, cut at the number sign.
  have hcomm : (rest.takeWhile (· != 0x23)).takeWhile (· != 0x3F) =
      (rest.takeWhile (· != 0x3F)).takeWhile (· != 0x23) := by
    simp [List.takeWhile_takeWhile, Bool.and_comm]
  rw [splitQuery_fst] at hslash hauth hpath
  obtain ⟨after, hafter⟩ := hslash
  rw [← hafter] at hauth hpath hcomm
  simp only [List.cons_append, List.nil_append, List.drop_succ_cons, List.drop_zero] at hauth hpath
  rw [huser] at hauth
  obtain ⟨htake, hdrop⟩ := takeWhile_hash_authority (hash_not_mem_of_parseAuthority hauth)
  obtain ⟨path, hpath', hmk⟩ := Option.map_eq_some_iff.mp hpath
  obtain rfl : path = url.path := (Prod.mk.inj hmk).1
  obtain ⟨path', hcutPath⟩ := unescape_path_takeWhile hpath'
  have hsetPath : setPath ((after.takeWhile (· != 0x23)).dropWhile (· != 0x2F)) =
      some (path', if (after.dropWhile (· != 0x2F)).takeWhile (· != 0x23) = escape .path path'
        then [] else (after.dropWhile (· != 0x2F)).takeWhile (· != 0x23)) := by
    rw [setPath, hdrop, hcutPath, Option.map_some]
  have hresult := parseHierarchy_authority
    { scheme := toLower u scheme
      forceQuery := (splitQuery (rest.takeWhile (· != 0x23))).2.1
      rawQuery := (splitQuery (rest.takeWhile (· != 0x23))).2.2 }
    ((rest.takeWhile (· != 0x23)).takeWhile (· != 0x3F)) hlow ⟨after.takeWhile (· != 0x23), by simp [hcomm]⟩
    (by simpa [hcomm, htake] using hauth) (by simpa [hcomm] using hsetPath)
  have hparse : parse u false (cut 0x23 (scheme ++ 0x3A :: rest)).1 =
      parseHierarchy false
        { scheme := toLower u scheme
          forceQuery := (splitQuery (rest.takeWhile (· != 0x23))).2.1
          rawQuery := (splitQuery (rest.takeWhile (· != 0x23))).2.2 }
        (splitQuery (rest.takeWhile (· != 0x23))).1 := by
    have hstar' : scheme ++ 0x3A :: rest.takeWhile (· != 0x23) ≠ [0x2A] := by
      intro heq
      simp [List.append_eq_cons_iff] at heq
    rw [hcut, parse, hctl', hagain]
    simp [hstar']
  rw [← splitQuery_fst] at hresult
  refine ⟨_, hparse.trans hresult, rfl, fun hhash => ?_⟩
  have hnotPath : (0x23 : UInt8) ∉ after.dropWhile (· != 0x2F) :=
    fun hmem => hhash (hash_mem_of_unescape_path hpath' hmem)
  rw [takeWhile_eq_self_of_not_mem hnotPath, hpath'] at hcutPath
  exact (Option.some.inj hcutPath).symm

/-- What parses holds no control character. -/
theorem containsCTLByte_of_parse {viaRequest : Bool} {raw : GoString} {url : Url}
    (h : parse u viaRequest raw = some url) : containsCTLByte raw = false := by
  unfold parse at h
  by_contra hctl
  simp [hctl] at h

/-- With a fragment that decodes the two entry points agree; with one that does
not only `parseRequestURI` accepts. -/
theorem parse_of_parseRequestURI {raw : GoString} {url : Url}
    (h : parseRequestURI u raw = some url) (hhost : url.host ≠ []) (huser : url.user = none)
    (hfrag : fragmentDecodes raw) :
    ∃ url', Url.parse u raw = some url' ∧ url'.host = url.host ∧
      ((0x23 : UInt8) ∉ url.path → url'.path = url.path) := by
  obtain ⟨url', hparse, hhost', hpath'⟩ := parse_cut_of_parseRequestURI u h hhost huser
  obtain ⟨fragment, hfragment⟩ := Option.isSome_iff_exists.mp hfrag
  have hwhole : Url.parse u raw = some
      { url' with
        fragment
        rawFragment :=
          if (cut 0x23 raw).2 = escape .fragment fragment then [] else (cut 0x23 raw).2 } := by
    rw [Url.parse, hparse]
    simp [hfragment]
  exact ⟨_, hwhole, hhost', hpath'⟩

theorem parse_eq_none_of_fragment {raw : GoString} (hfrag : ¬ fragmentDecodes raw) :
    Url.parse u raw = none := by
  have hnone : unescape .fragment (cut 0x23 raw).2 = none := by
    simpa [fragmentDecodes] using hfrag
  unfold Url.parse
  split
  · rfl
  · simp [hnone]

end

end Purels.Go
