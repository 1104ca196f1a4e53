import Purels.Go.Url
import Purels.Lib.Prefixes

/-!
# Printed URLs read back

What `Url.parse` makes of the text that `Url.toText` writes.

* `unescape_escape`: an escaped string, if it can be read at all, is the string.
* `parseHost_escape`: the same for the brackets, the zone and the port of a host.
* `Url.Plain`: a web address with no user, no query and no fragment.
* `Url.plain_of_parse`, `Url.Plain.parse_toText`: a web address that was read prints as
  one that, if it can be read at all, prints alike.
* `parseRequestURI_path`: a path that needs no escaping is read as it is.
-/

namespace Purels.Go

open Lib

/-! ## Escapes -/

/-- `shouldEscape` with its characters as bytes, for the facts that are checked byte by byte. -/
def escapesByte (c : UInt8) (mode : Encoding) : Bool :=
  if (0x61 ≤ c.toNat && c.toNat ≤ 0x7A) || (0x41 ≤ c.toNat && c.toNat ≤ 0x5A) || isDigit c then
    false
  else if (mode = .host ∨ mode = .zone) ∧ c.toNat ∈ [0x21, 0x24, 0x26, 0x27, 0x28, 0x29, 0x2A,
      0x2B, 0x2C, 0x3B, 0x3D, 0x3A, 0x5B, 0x5D, 0x3C, 0x3E, 0x22] then false
  else if c.toNat ∈ [0x2D, 0x5F, 0x2E, 0x7E] then false
  else if c.toNat ∈ [0x24, 0x26, 0x2B, 0x2C, 0x2F, 0x3A, 0x3B, 0x3D, 0x3F, 0x40] then
    match mode with
    | .path => c == 0x3F
    | .pathSegment => c.toNat ∈ [0x2F, 0x3B, 0x2C, 0x3F]
    | .userPassword => c.toNat ∈ [0x40, 0x2F, 0x3F, 0x3A]
    | .queryComponent => true
    | .fragment => false
    | .host | .zone => true
  else if mode = .fragment ∧ c.toNat ∈ [0x21, 0x28, 0x29, 0x2A] then false
  else true

theorem mem_codes (c : UInt8) (s : GoString) : c ∈ s ↔ c.toNat ∈ s.map UInt8.toNat := by
  refine ⟨List.mem_map_of_mem, fun h => ?_⟩
  obtain ⟨d, hd, heq⟩ := List.mem_map.mp h
  rwa [← UInt8.toNat_inj.mp heq]

theorem shouldEscape_eq (c : UInt8) (mode : Encoding) :
    shouldEscape c mode = escapesByte c mode := by
  unfold shouldEscape escapesByte
  simp only [mem_codes c (lit _)]
  rfl

/-- The text of one byte. -/
def escapeByte (mode : Encoding) (c : UInt8) : GoString :=
  if shouldEscape c mode then
    if c = 0x20 ∧ mode = .queryComponent then [0x2B]
    else [0x25, upperHex (c.toNat / 16), upperHex (c.toNat % 16)]
  else [c]

theorem escape_cons (mode : Encoding) (c : UInt8) (s : GoString) :
    escape mode (c :: s) = escapeByte mode c ++ escape mode s := rfl

/-- The two digits of a byte are digits, and of this value. -/
theorem upperHex_byte (c : UInt8) :
    isHex (upperHex (c.toNat / 16)) ∧ isHex (upperHex (c.toNat % 16)) ∧
      UInt8.ofNat (unhex (upperHex (c.toNat / 16)) * 16 + unhex (upperHex (c.toNat % 16))) = c :=
  forall_byte c (by decide +kernel)

/-- A printable byte that begins neither a query nor a fragment. -/
def isAddressByte (b : UInt8) : Bool :=
  decide (0x20 < b.toNat) && decide (b.toNat < 0x7F) && b != 0x23 && b != 0x3F

theorem isAddressByte_iff {b : UInt8} :
    isAddressByte b ↔ 0x20 < b.toNat ∧ b.toNat < 0x7F ∧ b ≠ 0x23 ∧ b ≠ 0x3F := by
  simp only [isAddressByte, Bool.and_eq_true, decide_eq_true_eq, bne_iff_ne, and_assoc]

/-- What is written of a host or a path stays inside them. -/
theorem escapeByte_all (c : UInt8) :
    (escapeByte .host c).all (fun b => isAddressByte b && b != 0x2F && b != 0x40) ∧
      (escapeByte .path c).all isAddressByte := by
  simp only [escapeByte, shouldEscape_eq]
  exact forall_byte c (by decide +kernel)

theorem escape_host_mem {s : GoString} {b : UInt8} (hb : b ∈ escape .host s) :
    (0x20 < b.toNat ∧ b.toNat < 0x7F ∧ b ≠ 0x23 ∧ b ≠ 0x3F) ∧ b ≠ 0x2F ∧ b ≠ 0x40 := by
  obtain ⟨c, -, hc⟩ := List.mem_flatMap.mp hb
  have hall := List.all_eq_true.mp (escapeByte_all c).1 b hc
  rw [Bool.and_eq_true, Bool.and_eq_true, bne_iff_ne, bne_iff_ne, isAddressByte_iff] at hall
  exact ⟨hall.1.1, hall.1.2, hall.2⟩

theorem escape_path_mem {s : GoString} {b : UInt8} (hb : b ∈ escape .path s) :
    0x20 < b.toNat ∧ b.toNat < 0x7F ∧ b ≠ 0x23 ∧ b ≠ 0x3F := by
  obtain ⟨c, -, hc⟩ := List.mem_flatMap.mp hb
  exact isAddressByte_iff.mp (List.all_eq_true.mp (escapeByte_all c).2 b hc)

/-- A byte is written as itself, or as a percent sign and two digits. -/
theorem escapeByte_cases {mode : Encoding} (hmode : mode ≠ .queryComponent) (c : UInt8) :
    (escapeByte mode c = [c] ∧ c ≠ 0x25) ∨
      escapeByte mode c = [0x25, upperHex (c.toNat / 16), upperHex (c.toNat % 16)] := by
  unfold escapeByte
  by_cases hescape : shouldEscape c mode
  · rw [if_pos hescape, if_neg fun h => hmode h.2]
    exact .inr rfl
  · rw [if_neg hescape]
    refine .inl ⟨rfl, ?_⟩
    rintro rfl
    exact hescape (by cases mode <;> decide)

/-- An escaped string, if it can be read at all, is the string. -/
theorem unescape_escape {mode mode' : Encoding} (hmode : mode ≠ .queryComponent)
    (hmode' : mode' ≠ .queryComponent) {s t : GoString}
    (h : unescape mode (escape mode' s) = some t) : t = s := by
  induction s generalizing t with
  | nil =>
    cases h
    rfl
  | cons c s ih =>
    rw [escape_cons] at h
    rcases escapeByte_cases hmode' c with ⟨hplain, hne⟩ | hescaped
    · rw [hplain, List.singleton_append] at h
      rcases unescape_cons h with ⟨-, -, t', ht', rfl⟩ | ⟨hpercent, -⟩
      · rw [ih ht', plainByte, if_neg fun hand => hmode hand.2]
      · exact absurd hpercent hne
    · rw [hescaped] at h
      rcases unescape_cons h with ⟨hpercent, -⟩ | ⟨-, a, b, rest, t', hrest, -, -, -, ht', rfl⟩
      · exact absurd rfl hpercent
      · obtain ⟨rfl, rfl, rfl⟩ : upperHex (c.toNat / 16) = a ∧ upperHex (c.toNat % 16) = b ∧
            escape mode' s = rest := by simpa using hrest
        rw [(upperHex_byte c).2.2, ih ht']

/-! ## Hosts -/

section

variable {s a b : GoString} {c : UInt8}

/-- A byte that is no digit begins the text of a byte of the string. -/
theorem escape_eq_append (hc : isHex c = false) (h : escape .host s = a ++ c :: b) :
    ∃ x y, s = x ++ y ∧ escape .host x = a ∧ escape .host y = c :: b := by
  induction s generalizing a with
  | nil =>
    have hnil : ([] : GoString) = a ++ c :: b := h
    exact absurd hnil.symm (by simp)
  | cons d s ih =>
    cases a with
    | nil => exact ⟨[], d :: s, rfl, rfl, h⟩
    | cons first a =>
      rw [escape_cons] at h
      rcases escapeByte_cases (by decide : Encoding.host ≠ .queryComponent) d with
        ⟨hplain, -⟩ | hescaped
      · rw [hplain] at h
        obtain ⟨rfl, hrest⟩ := List.cons.inj h
        obtain ⟨x, y, rfl, hx, hy⟩ := ih hrest
        exact ⟨d :: x, y, rfl, by rw [escape_cons, hplain, hx]; rfl, hy⟩
      · -- the byte is behind the two digits of the escape
        have hdigits := upperHex_byte d
        rw [hescaped] at h
        obtain ⟨rfl, hrest⟩ := List.cons.inj h
        rcases a with _ | ⟨high, _ | ⟨low, a⟩⟩
        · rw [(List.cons.inj hrest).1, hc] at hdigits
          exact absurd hdigits.1 (by decide)
        · rw [(List.cons.inj (List.cons.inj hrest).2).1, hc] at hdigits
          exact absurd hdigits.2.1 (by decide)
        · obtain ⟨hhigh, htail⟩ := List.cons.inj hrest
          obtain ⟨hlow, htail⟩ := List.cons.inj htail
          obtain ⟨x, y, rfl, hx, hy⟩ := ih htail
          exact ⟨d :: x, y, rfl, by rw [escape_cons, hescaped, hx, hhigh, hlow]; rfl, hy⟩

/-- A byte other than the percent sign stands for itself. -/
theorem escape_eq_cons (hc : c ≠ 0x25) (h : escape .host s = c :: b) :
    ∃ y, s = c :: y ∧ escape .host y = b := by
  cases s with
  | nil => cases h
  | cons d s =>
    rw [escape_cons] at h
    rcases escapeByte_cases (by decide : Encoding.host ≠ .queryComponent) d with
      ⟨hplain, -⟩ | hescaped
    · rw [hplain] at h
      obtain ⟨rfl, hrest⟩ := List.cons.inj h
      exact ⟨s, rfl, hrest⟩
    · rw [hescaped] at h
      exact absurd (List.cons.inj h).1.symm hc

/-- A zone begins with its percent sign. -/
theorem splitZone_eq_some {address zone : GoString}
    (h : parseHost.splitZone s = some (address, zone)) : ∃ rest, s = address ++ 0x25 :: rest ∧
      zone = 0x25 :: rest := by
  induction s generalizing address with
  | nil => simp [parseHost.splitZone] at h
  | cons c s ih =>
    unfold parseHost.splitZone at h
    split_ifs at h with hzone
    · obtain ⟨rest, hrest⟩ := hzone
      cases h
      exact ⟨_, hrest.symm, hrest.symm⟩
    · obtain ⟨⟨front, back⟩, hsplit, heq⟩ := Option.map_eq_some_iff.mp h
      cases heq
      obtain ⟨rest, hs, hback⟩ := ih hsplit
      exact ⟨rest, by rw [hs]; rfl, hback⟩

theorem unescapeZoned_escape {name : GoString}
    (h : parseHost.unescapeZoned (escape .host s) = some name) : name = s := by
  unfold parseHost.unescapeZoned at h
  split at h
  · rename_i address zone hsplit
    obtain ⟨rest, hs, rfl⟩ := splitZone_eq_some hsplit
    obtain ⟨x, y, rfl, rfl, hy⟩ := escape_eq_append (by decide) hs
    rw [← hy] at h
    split at h
    · rename_i x' y' hx' hy'
      cases h
      rw [unescape_escape (by decide) (by decide) hx', unescape_escape (by decide) (by decide) hy']
    · cases h
  · exact unescape_escape (by decide) (by decide) h

/-- A host, if it can be read again at all, is the host. -/
theorem parseHost_escape {host : GoString} (h : parseHost (escape .host s) = some host) :
    host = s := by
  unfold parseHost at h
  split at h
  · rename_i before inside hopen
    split_ifs at h with hbefore
    split at h
    · cases h
    · rename_i name colonPort hclose
      split_ifs at h with hport
      split at h
      · rename_i colonPort' name' hcolon hname
        have hwhole : escape .host s = 0x5B :: (name ++ 0x5D :: colonPort) := by
          rw [cutLast_eq_some hopen, cutLast_eq_some hclose, not_not.mp hbefore]
          rfl
        obtain ⟨inner, rfl, hinner⟩ := escape_eq_cons (by decide) hwhole
        obtain ⟨x, y, rfl, rfl, hy⟩ := escape_eq_append (by decide) hinner
        obtain ⟨z, rfl, rfl⟩ := escape_eq_cons (by decide) hy
        split at h
        · split_ifs at h
          cases h
          rw [unescapeZoned_escape hname, unescape_escape (by decide) (by decide) hcolon]
          rfl
        · cases h
      · cases h
  · split_ifs at h with hport
    exact unescape_escape (by decide) (by decide) h

end

/-! ## Web addresses -/

/-- A web address: scheme, host and path, and at most the bare question mark of a query. -/
structure Url.Plain (url : Url) : Prop where
  scheme : url.scheme = lit "http" ∨ url.scheme = lit "https"
  opaquePart : url.opaquePart = []
  user : url.user = none
  host : url.host ≠ []
  rooted : url.escapedPath = [] ∨ [0x2F] <+: url.escapedPath
  rawQuery : url.rawQuery = []
  fragment : url.fragment = []

/-- The question mark that is printed without a query. -/
def queryMark (force : Bool) : GoString := if force then [0x3F] else []

theorem escapedPath_mem {url : Url} {b : UInt8} (hb : b ∈ url.escapedPath) :
    0x20 < b.toNat ∧ b.toNat < 0x7F ∧ b ≠ 0x23 ∧ b ≠ 0x3F := by
  have hvalid : ∀ c : UInt8,
      !(c ∈ lit "!$&'()*+,;=:@[]%" || !shouldEscape c .path) || isAddressByte c :=
    fun c => by
      simp only [shouldEscape_eq, mem_codes c (lit _)]
      exact forall_byte c (by decide +kernel)
  unfold Url.escapedPath at hb
  split_ifs at hb with hraw hstar
  · have hbyte := hvalid b
    rw [List.all_eq_true.mp hraw.2.1 b hb] at hbyte
    exact isAddressByte_iff.mp hbyte
  · rw [List.mem_singleton.mp hb]
    decide
  · exact escape_path_mem hb

/-- The text of the path is read as a path that prints alike. -/
theorem escapedPath_setPath {url url' : Url}
    (h : setPath url.escapedPath = some (url'.path, url'.rawPath))
    (hrooted : url.escapedPath = [] ∨ [0x2F] <+: url.escapedPath) :
    url'.escapedPath = url.escapedPath := by
  have hstar : url.escapedPath ≠ [0x2A] := by
    intro heq
    rw [heq] at hrooted
    exact absurd hrooted (by decide)
  obtain ⟨path, hpath, hmk⟩ := Option.map_eq_some_iff.mp h
  obtain ⟨rfl, hraw⟩ := Prod.mk.inj hmk
  by_cases hdefault : url.escapedPath = escape .path url'.path
  · rw [if_pos hdefault] at hraw
    rw [Url.escapedPath, if_neg fun hand => hand.1 hraw.symm, if_neg, ← hdefault]
    intro heq
    rw [hdefault, heq] at hrooted
    exact absurd hrooted (by decide)
  · rw [if_neg hdefault] at hraw
    have hvalid : validEncoded .path url.escapedPath := by
      by_contra hinvalid
      unfold Url.escapedPath at hinvalid hdefault hstar hpath
      split_ifs at hinvalid hdefault hstar hpath with hown
      · exact hinvalid hown.2.1
      · exact hstar rfl
      · exact hdefault (by rw [unescape_escape (by decide) (by decide) hpath])
    have hne : url.escapedPath ≠ [] := by
      intro heq
      rw [heq] at hpath hdefault
      have hnil : [] = url'.path := Option.some.inj hpath
      exact hdefault (by rw [← hnil]; rfl)
    rw [Url.escapedPath, ← hraw, if_pos ⟨hne, hvalid, hpath⟩]

theorem cut_of_not_mem {c : UInt8} {s : GoString} (h : c ∉ s) : cut c s = (s, []) := by
  have hall : ∀ d ∈ s, (d != c) = true := fun d hd => by
    simpa using fun heq : d = c => h (heq ▸ hd)
  rw [cut, takeWhile_eq_self_of_not_mem h, List.dropWhile_eq_nil_iff.mpr hall]
  rfl

/-- What is left behind the colon, split at the question mark. -/
theorem splitQuery_toText (url : Url) :
    splitQuery (0x2F :: 0x2F ::
      (escape .host url.host ++ url.escapedPath ++ queryMark url.forceQuery)) =
      (0x2F :: 0x2F :: (escape .host url.host ++ url.escapedPath), url.forceQuery, []) := by
  have hmark : (0x3F : UInt8) ∉ 0x2F :: 0x2F :: (escape .host url.host ++ url.escapedPath) := by
    intro hmem
    simp only [List.mem_cons, List.mem_append] at hmem
    rcases hmem with heq | heq | hmem | hmem
    · exact absurd heq (by decide)
    · exact absurd heq (by decide)
    · exact (escape_host_mem hmem).1.2.2.2 rfl
    · exact (escapedPath_mem hmem).2.2.2 rfl
  rw [← List.cons_append, ← List.cons_append]
  generalize 0x2F :: 0x2F :: (escape .host url.host ++ url.escapedPath) = text at hmark
  cases url.forceQuery
  · have hlast : text.getLast? ≠ some 0x3F := fun heq => hmark (List.mem_of_getLast? heq)
    rw [queryMark, if_neg Bool.false_ne_true, List.append_nil, splitQuery,
      if_neg fun hand => hlast hand.1, cut_of_not_mem hmark]
  · simp [queryMark, splitQuery, List.count_eq_zero.mpr hmark]

/-- A path behind an authority is printed as one. -/
theorem escapedPath_rooted {url : Url} {text : GoString} (hroot : text = [] ∨ [0x2F] <+: text)
    (h : setPath text = some (url.path, url.rawPath)) :
    url.escapedPath = [] ∨ [0x2F] <+: url.escapedPath := by
  obtain ⟨path, hpath, hmk⟩ := Option.map_eq_some_iff.mp h
  obtain ⟨rfl, hraw⟩ := Prod.mk.inj hmk
  rcases hroot with rfl | ⟨rest, rfl⟩
  · have hnil : [] = url.path := Option.some.inj hpath
    rw [← hnil, ite_self] at hraw
    rw [Url.escapedPath, if_neg fun hand => hand.1 hraw.symm, ← hnil]
    exact .inl rfl
  · refine .inr ?_
    obtain ⟨-, -, tail, -, hurl⟩ | ⟨habsurd, -⟩ := unescape_cons hpath
    · have hplain : url.path = 0x2F :: tail := hurl
      unfold Url.escapedPath
      split_ifs with hown hstar
      · rw [← hraw] at hown ⊢
        split_ifs at hown ⊢
        · exact absurd rfl hown.1
        · exact ⟨rest, rfl⟩
      · rw [hplain] at hstar
        cases hstar
      · rw [hplain]
        exact ⟨escape .path tail, rfl⟩
    · exact absurd habsurd (by decide)

/-- A host is only read from an authority, with a path behind it. -/
theorem parseHierarchy_host {base url : Url} {rest : GoString}
    (h : parseHierarchy false base rest = some url) (hbase : base.host = [])
    (hhost : url.host ≠ []) :
    url.opaquePart = base.opaquePart ∧
      (url.escapedPath = [] ∨ [0x2F] <+: url.escapedPath) := by
  unfold parseHierarchy at h
  split_ifs at h with hpart hrequest hcolon hauthority
  · cases h
    exact absurd hbase hhost
  · dsimp only at h
    split at h
    · rename_i user host path rawPath hauth hpath
      cases h
      refine ⟨rfl, escapedPath_rooted ?_ hpath⟩
      cases hdrop : (rest.drop 2).dropWhile (· != 0x2F) with
      | nil => exact .inl rfl
      | cons c tail =>
        have hslash : ¬ (c != 0x2F) = true := by
          have hhead := List.head?_dropWhile_not (· != 0x2F) (rest.drop 2)
          rw [hdrop] at hhead
          simpa using hhead
        rw [bne_iff_ne, not_not] at hslash
        exact .inr ⟨tail, by rw [hslash]; rfl⟩
    · cases h
  · obtain ⟨path, -, rfl⟩ := Option.map_eq_some_iff.mp h
    exact absurd hbase hhost

theorem toLower_ne_nil (u : Unicode) {s : GoString} (h : s ≠ []) : toLower u s ≠ [] := by
  obtain ⟨b, rest, rfl⟩ := List.exists_cons_of_ne_nil h
  rw [toLower, runes_cons, List.flatMap_cons]
  exact fun heq => encodeRune_ne_nil _ (List.append_eq_nil_iff.mp heq).1

/-- What is read as a web address, its host in lower case, is one. -/
theorem Url.plain_of_parse {u : Unicode} {raw : GoString} {url : Url}
    (h : Url.parse u raw = some url) (hscheme : url.scheme = lit "http" ∨ url.scheme = lit "https")
    (hhost : url.host ≠ []) (huser : url.user = none) (hquery : url.rawQuery = [])
    (hfragment : url.fragment = []) : Url.Plain { url with host := toLower u url.host } := by
  unfold Url.parse at h
  split at h
  · cases h
  · rename_i url' hparse
    obtain ⟨frag, -, rfl⟩ := Option.map_eq_some_iff.mp h
    unfold Go.parse at hparse
    split_ifs at hparse with hctl hnil hstar
    · cases hparse
      exact absurd rfl hhost
    · split at hparse
      · cases hparse
      · rename_i scheme rest hgetScheme
        obtain ⟨hpart, hrooted⟩ := parseHierarchy_host hparse rfl hhost
        exact ⟨hscheme, hpart, huser, toLower_ne_nil u hhost, hrooted, hquery, hfragment⟩

namespace Url.Plain

variable {url : Url} (h : url.Plain)

include h

theorem toText_eq : url.toText = url.scheme ++ 0x3A :: 0x2F :: 0x2F ::
    (escape .host url.host ++ url.escapedPath ++ queryMark url.forceQuery) := by
  have hscheme : url.scheme ≠ [] := by
    rcases h.scheme with heq | heq
    · rw [heq]
      decide
    · rw [heq]
      decide
  simp [Url.toText, Url.authorityText, hscheme, h.opaquePart, h.user, h.host, h.rawQuery,
    h.fragment, queryMark]
  exact h.rooted.resolve_left

/-- Every byte of a web address is printable ASCII. -/
theorem toText_mem {b : UInt8} (hb : b ∈ url.toText) :
    0x20 < b.toNat ∧ b.toNat < 0x7F ∧ b ≠ 0x23 := by
  rw [h.toText_eq] at hb
  have hscheme : ∀ c ∈ url.scheme, 0x20 < c.toNat ∧ c.toNat < 0x7F ∧ c ≠ 0x23 := by
    rcases h.scheme with heq | heq
    · rw [heq]
      decide +kernel
    · rw [heq]
      decide +kernel
  have hmark : ∀ c ∈ queryMark url.forceQuery, 0x20 < c.toNat ∧ c.toNat < 0x7F ∧ c ≠ 0x23 := by
    cases url.forceQuery <;> decide +kernel
  simp only [List.mem_append, List.mem_cons] at hb
  rcases hb with hb | rfl | rfl | rfl | (hb | hb) | hb
  · exact hscheme b hb
  · decide
  · decide
  · decide
  · obtain ⟨⟨hlow, hhigh, hhash, -⟩, -⟩ := escape_host_mem hb
    exact ⟨hlow, hhigh, hhash⟩
  · obtain ⟨hlow, hhigh, hhash, -⟩ := escapedPath_mem hb
    exact ⟨hlow, hhigh, hhash⟩
  · exact hmark b hb

variable {u : Unicode} {url' : Url}

theorem getScheme_eq (rest : GoString) :
    getScheme (url.scheme ++ 0x3A :: rest) = some (url.scheme, rest) := by
  rcases h.scheme with heq | heq
  · rw [heq]
    rfl
  · rw [heq]
    rfl

theorem toLower_scheme : toLower u url.scheme = url.scheme := by
  rcases h.scheme with heq | heq
  · rw [heq, toLower_ascii u (by decide +kernel)]
    decide
  · rw [heq, toLower_ascii u (by decide +kernel)]
    decide

/-- The parts of a printed web address that are read again. -/
theorem parse_eq (hparse : Url.parse u url.toText = some url') :
    parseHost (escape .host url.host) = some url'.host ∧
      setPath url.escapedPath = some (url'.path, url'.rawPath) ∧
      url' = { scheme := url.scheme, host := url'.host, path := url'.path,
               rawPath := url'.rawPath, forceQuery := url.forceQuery } := by
  have hhash : (0x23 : UInt8) ∉ url.toText := fun hmem => (h.toText_mem hmem).2.2 rfl
  have hctl : containsCTLByte url.toText = false := by
    apply List.any_eq_false.mpr
    intro b hb
    obtain ⟨hlow, hhigh, -⟩ := h.toText_mem hb
    have hdel : b ≠ 0x7F := by
      rintro rfl
      exact absurd hhigh (by decide)
    simp only [Bool.or_eq_true, decide_eq_true_eq, beq_iff_eq, not_or]
    exact ⟨by omega, hdel⟩
  have hstar : url.toText ≠ [0x2A] := by
    intro heq
    have hcolon : (0x3A : UInt8) ∈ url.toText := by
      rw [h.toText_eq]
      exact List.mem_append_right _ List.mem_cons_self
    rw [heq] at hcolon
    exact absurd hcolon (by decide)
  have hgo : Go.parse u false url.toText =
      parseHierarchy false { scheme := url.scheme, forceQuery := url.forceQuery }
        (0x2F :: 0x2F :: (escape .host url.host ++ url.escapedPath)) := by
    unfold Go.parse
    rw [hctl, if_neg Bool.false_ne_true, if_neg fun hand => Bool.false_ne_true hand.2,
      if_neg hstar, h.toText_eq, h.getScheme_eq]
    show parseHierarchy false _ _ = _
    rw [splitQuery_toText, h.toLower_scheme]
  have hscheme : url.scheme ≠ [] := by
    rcases h.scheme with heq | heq
    · rw [heq]
      decide
    · rw [heq]
      decide
  -- the authority ends where the path begins
  have hslash : ∀ c ∈ escape .host url.host, (c != 0x2F) = true := fun c hc => by
    simpa using (escape_host_mem hc).2.1
  have hauthority : (escape .host url.host ++ url.escapedPath).takeWhile (· != 0x2F) =
      escape .host url.host ∧
      (escape .host url.host ++ url.escapedPath).dropWhile (· != 0x2F) = url.escapedPath := by
    rw [List.takeWhile_append_of_pos hslash, List.dropWhile_append_of_pos hslash]
    rcases h.rooted with hnil | ⟨path, hpath⟩
    · rw [hnil]
      exact ⟨List.append_nil _, rfl⟩
    · rw [← hpath]
      exact ⟨List.append_nil _, rfl⟩
  have hat : (0x40 : UInt8) ∉ escape .host url.host :=
    fun hmem => (escape_host_mem hmem).2.2 rfl
  have hauth : parseAuthority (escape .host url.host) =
      (parseHost (escape .host url.host)).map fun host => (none, host) := by
    rw [parseAuthority, cutLast, if_neg hat]
  have hone : [0x2F] <+: 0x2F :: 0x2F :: (escape .host url.host ++ url.escapedPath) := ⟨_, rfl⟩
  rw [Url.parse, cut_of_not_mem hhash, hgo, parseHierarchy, if_neg fun hand => hand.1 hone,
    if_neg fun hand => hand.1 hone, if_neg fun hand => hand.1 hone,
    if_pos ⟨.inl hscheme, _, rfl⟩] at hparse
  simp only [List.drop_succ_cons, List.drop_zero, hauthority, hauth] at hparse
  cases hhost : parseHost (escape .host url.host) with
  | none =>
    rw [hhost] at hparse
    cases hparse
  | some host =>
    cases hsetPath : setPath url.escapedPath with
    | none =>
      rw [hhost, hsetPath] at hparse
      cases hparse
    | some path =>
      rw [hhost, hsetPath] at hparse
      obtain ⟨path, rawPath⟩ := path
      cases hparse
      exact ⟨rfl, rfl, rfl⟩

/-- A web address that was printed, if it can be read at all, is one that prints alike. -/
theorem parse_toText (hparse : Url.parse u url.toText = some url') :
    url'.Plain ∧ url'.host = url.host ∧ url'.toText = url.toText := by
  obtain ⟨hhost, hsetPath, hurl⟩ := h.parse_eq hparse
  have hsame : url'.host = url.host := parseHost_escape hhost
  have hescaped : url'.escapedPath = url.escapedPath := escapedPath_setPath hsetPath h.rooted
  have hplain : url'.Plain := by
    have hrooted := h.rooted
    rw [← hescaped] at hrooted
    have hhost' := h.host
    rw [← hsame] at hhost'
    rw [hurl] at hrooted hhost' ⊢
    exact ⟨h.scheme, rfl, rfl, hhost', hrooted, rfl, rfl⟩
  refine ⟨hplain, hsame, ?_⟩
  rw [hplain.toText_eq, h.toText_eq, hescaped, hsame, hurl]

end Url.Plain

/-! ## Plain paths -/

/-- A byte that a path need not escape begins neither an escape nor a query. -/
theorem path_byte_plain (c : UInt8) : shouldEscape c .path = false →
    0x20 < c.toNat ∧ c.toNat < 0x7F ∧ c ≠ 0x3F ∧ c ≠ 0x25 := by
  rw [shouldEscape_eq]
  exact forall_byte c (by decide +kernel)

theorem escape_plain {mode : Encoding} {s : GoString} (h : ∀ c ∈ s, shouldEscape c mode = false) :
    escape mode s = s := by
  induction s with
  | nil => rfl
  | cons c s ih =>
    have hc : shouldEscape c mode = false := h c List.mem_cons_self
    rw [escape_cons, escapeByte, hc, ih fun d hd => h d (List.mem_cons_of_mem c hd)]
    rfl

theorem unescape_path_plain {s : GoString} (h : (0x25 : UInt8) ∉ s) :
    unescape .path s = some s := by
  induction s with
  | nil => rfl
  | cons c s ih =>
    have hc : c ≠ 0x25 := fun heq => h (heq ▸ List.mem_cons_self)
    rw [unescape_plain hc rfl (ih fun hmem => h (List.mem_cons_of_mem c hmem)), plainByte,
      if_neg fun hand => absurd hand.2 (by decide)]

/-- The target of a request for a path that needs no escaping. -/
theorem parseRequestURI_path (u : Unicode) {rest : GoString}
    (h : ∀ c ∈ rest, shouldEscape c .path = false) :
    parseRequestURI u (0x2F :: rest) = some { path := 0x2F :: rest } := by
  have hall : ∀ c ∈ 0x2F :: rest, shouldEscape c .path = false :=
    List.forall_mem_cons.mpr ⟨by decide, h⟩
  have hctl : containsCTLByte (0x2F :: rest) = false := by
    refine List.any_eq_false.mpr fun c hc => ?_
    have hplain := path_byte_plain c (hall c hc)
    have hdel : c ≠ 0x7F := by
      rintro rfl
      exact absurd hplain.2.1 (by decide)
    simpa [hdel] using hplain.1.le
  have hmark : (0x3F : UInt8) ∉ 0x2F :: rest := fun hmem =>
    (path_byte_plain _ (hall _ hmem)).2.2.1 rfl
  have hpercent : (0x25 : UInt8) ∉ 0x2F :: rest := fun hmem =>
    (path_byte_plain _ (hall _ hmem)).2.2.2 rfl
  have hscheme : getScheme (0x2F :: rest) = some ([], 0x2F :: rest) := rfl
  have hquery : splitQuery (0x2F :: rest) = (0x2F :: rest, false, []) := by
    rw [splitQuery, if_neg fun hand => hmark (List.mem_of_getLast? hand.1), cut_of_not_mem hmark]
  have hroot : [0x2F] <+: 0x2F :: rest := ⟨rest, rfl⟩
  have hnone : toLower u [] = [] := rfl
  have hpath : setPath (0x2F :: rest) = some (0x2F :: rest, []) := by
    rw [setPath, unescape_path_plain hpercent, Option.map_some, escape_plain hall, if_pos rfl]
  unfold parseRequestURI parse
  rw [if_neg (by rw [hctl]; decide), if_neg (by simp), if_neg (by simp), hscheme]
  show parseHierarchy true _ (splitQuery (0x2F :: rest)).1 = _
  rw [hquery, parseHierarchy, if_neg (by simp [hroot]), if_neg (by simp [hroot]),
    if_neg (by simp [hroot]), if_neg (by simp [hnone]), hpath]
  rfl

end Purels.Go
