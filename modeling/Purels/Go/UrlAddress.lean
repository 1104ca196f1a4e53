import Purels.Go.UrlText

/-!
# Addresses written by hand

What `Url.parse` makes of a scheme, an authority and a path that are put together.

* `Scheme`: a scheme as `getScheme` reads it.
* `authority_of_parseHost`: a host that is read ends nowhere before the path.
* `Url.parse_address`: the parts are read as they are.
* `parseHost_of_hostname`, `parseHost_escape_self`: a bare host name is its own host, and is
  read again when it is printed.
-/

namespace Purels.Go

open Lib

/-! ## Bytes -/

/-- A byte that ends no authority, and no URL. -/
def isAuthorityByte (b : UInt8) : Bool :=
  b != 0x23 && b != 0x2F && b != 0x3F && b != 0x40 && !(decide (b.toNat < 0x20) || b == 0x7F)

theorem isAuthorityByte_iff {b : UInt8} : isAuthorityByte b ↔
    b ≠ 0x23 ∧ b ≠ 0x2F ∧ b ≠ 0x3F ∧ b ≠ 0x40 ∧ ¬(b.toNat < 0x20 ∨ b = 0x7F) := by
  unfold isAuthorityByte
  simp only [Bool.and_eq_true, bne_iff_ne, Bool.not_eq_true', Bool.or_eq_false_iff,
    decide_eq_false_iff_not, beq_eq_false_iff_ne, not_or]
  tauto

/-- The bytes of schemes and hosts: where they may stand, and that a byte of a host is written
so that it is read again. -/
theorem address_byte (c : UInt8) :
    (isAsciiLetter c → isSchemeByte c) ∧
    (isSchemeByte c → 0x20 < c.toNat ∧ c.toNat < 0x7F ∧ c ≠ 0x23) ∧
    (isHex c ∨ byteAllowed .host c ∨ byteAllowed .zone c → isAuthorityByte c) ∧
    (byteAllowed .host c → shouldEscape c .host →
      escapeAllowed .host (upperHex (c.toNat / 16)) (upperHex (c.toNat % 16))) := by
  simp only [byteAllowed, shouldEscape_eq]
  exact forall_byte c (by decide +kernel)

/-! ## Schemes -/

/-- A letter, then letters, digits, `+`, `-` and `.`. -/
def Scheme (scheme : GoString) : Prop :=
  ∃ c rest, scheme = c :: rest ∧ isAsciiLetter c ∧ ∀ b ∈ rest, isSchemeByte b

theorem Scheme.bytes {scheme : GoString} (h : Scheme scheme) : ∀ b ∈ scheme, isSchemeByte b := by
  obtain ⟨c, rest, rfl, hletter, hrest⟩ := h
  exact List.forall_mem_cons.mpr ⟨(address_byte c).1 hletter, hrest⟩

theorem Scheme.ne_nil {scheme : GoString} (h : Scheme scheme) : scheme ≠ [] := by
  obtain ⟨c, rest, rfl, -⟩ := h
  exact List.cons_ne_nil c rest

theorem getScheme_scheme {scheme : GoString} (h : Scheme scheme) (rest : GoString) :
    getScheme (scheme ++ 0x3A :: rest) = some (scheme, rest) := by
  have htake : (scheme ++ 0x3A :: rest).takeWhile isSchemeByte = scheme := by
    rw [List.takeWhile_append_of_pos h.bytes, List.takeWhile_cons_of_neg (by decide),
      List.append_nil]
  have hdrop : (scheme ++ 0x3A :: rest).dropWhile isSchemeByte = 0x3A :: rest := by
    rw [List.dropWhile_append_of_pos h.bytes, List.dropWhile_cons_of_neg (by decide)]
  obtain ⟨c, tail, rfl, hletter, -⟩ := h
  unfold getScheme
  rw [htake, hdrop]
  exact if_pos hletter

/-! ## Authorities -/

theorem authority_of_unescape {mode : Encoding} (hmode : mode = .host ∨ mode = .zone) :
    ∀ {s t : GoString}, unescape mode s = some t → ∀ b ∈ s, isAuthorityByte b
  | [], _, _ => nofun
  | c :: s, t, h => by
    intro b hb
    rcases unescape_cons h with
      ⟨-, hallowed, t', ht', -⟩ | ⟨rfl, x, y, rest, t', rfl, hx, hy, -, ht', -⟩
    · rcases List.mem_cons.mp hb with rfl | hmem
      · rcases hmode with rfl | rfl
        · exact (address_byte b).2.2.1 (.inr (.inl hallowed))
        · exact (address_byte b).2.2.1 (.inr (.inr hallowed))
      · exact authority_of_unescape hmode ht' b hmem
    · rcases List.mem_cons.mp hb with rfl | hmem
      · decide
      rcases List.mem_cons.mp hmem with rfl | hmem
      · exact (address_byte b).2.2.1 (.inl hx)
      rcases List.mem_cons.mp hmem with rfl | hmem
      · exact (address_byte b).2.2.1 (.inl hy)
      · exact authority_of_unescape hmode ht' b hmem

theorem authority_of_zoned {name t : GoString} (h : parseHost.unescapeZoned name = some t) :
    ∀ b ∈ name, isAuthorityByte b := by
  unfold parseHost.unescapeZoned at h
  split at h
  · rename_i address zone hsplit
    split at h
    · rename_i haddress hzone
      rw [hash_not_mem_of_parseHost.splitZone_eq_some hsplit]
      intro b hb
      rcases List.mem_append.mp hb with hfront | hback
      · exact authority_of_unescape (.inl rfl) haddress b hfront
      · exact authority_of_unescape (.inr rfl) hzone b hback
    · cases h
  · exact authority_of_unescape (.inl rfl) h

/-- A host that is read is written in bytes that end no authority. -/
theorem authority_of_parseHost {s host : GoString} (h : parseHost s = some host) :
    ∀ b ∈ s, isAuthorityByte b := by
  unfold parseHost at h
  split at h
  · rename_i before inside hopen
    split_ifs at h with hbefore
    split at h
    · cases h
    · rename_i name colonPort hclose
      split_ifs at h
      split at h
      · rename_i colonPort' name' hcolon hname
        have hwhole : s = 0x5B :: (name ++ 0x5D :: colonPort) := by
          rw [cutLast_eq_some hopen, cutLast_eq_some hclose, not_not.mp hbefore]
          rfl
        rw [hwhole]
        intro b hb
        rcases List.mem_cons.mp hb with rfl | hb
        · decide
        rcases List.mem_append.mp hb with hfront | hb
        · exact authority_of_zoned hname b hfront
        rcases List.mem_cons.mp hb with rfl | hback
        · decide
        · exact authority_of_unescape (.inl rfl) hcolon b hback
      · cases h
  · split_ifs at h
    exact authority_of_unescape (.inl rfl) h

/-! ## Scheme, authority and path -/

section

variable {scheme authority path host : GoString}

/-- What is read of an address: its parts, as they are. -/
theorem Url.parse_address (u : Unicode) (hscheme : Scheme scheme)
    (hhost : parseHost authority = some host) (hrooted : path = [] ∨ [0x2F] <+: path)
    (hpath : ∀ c ∈ path, shouldEscape c .path = false) :
    Url.parse u (scheme ++ 0x3A :: 0x2F :: 0x2F :: (authority ++ path)) =
      some { scheme := toLower u scheme, host := host, path := path } := by
  have hauthority : ∀ b ∈ authority, b ≠ 0x23 ∧ b ≠ 0x2F ∧ b ≠ 0x3F ∧ b ≠ 0x40 ∧
      ¬(b.toNat < 0x20 ∨ b = 0x7F) :=
    fun b hb => isAuthorityByte_iff.mp (authority_of_parseHost hhost b hb)
  have hplain : ∀ b ∈ path, b ≠ 0x23 ∧ b ≠ 0x3F ∧ ¬(b.toNat < 0x20 ∨ b = 0x7F) := by
    intro b hb
    obtain ⟨hlow, hhigh, hquery, -⟩ := path_byte_plain b (hpath b hb)
    refine ⟨?_, hquery, ?_⟩
    · rintro rfl
      exact absurd (hpath _ hb) (by decide)
    · rintro (hcontrol | rfl)
      · omega
      · exact absurd hhigh (by decide)
  -- no byte of the text is a control or a number sign
  have hbytes : ∀ b ∈ scheme ++ 0x3A :: 0x2F :: 0x2F :: (authority ++ path),
      b ≠ 0x23 ∧ ¬(b.toNat < 0x20 ∨ b = 0x7F) := by
    intro b hb
    simp only [List.mem_append, List.mem_cons] at hb
    rcases hb with hb | rfl | rfl | rfl | hb | hb
    · obtain ⟨hlow, hhigh, hhash⟩ := (address_byte b).2.1 (hscheme.bytes b hb)
      refine ⟨hhash, ?_⟩
      rintro (hcontrol | rfl)
      · omega
      · exact absurd hhigh (by decide)
    · decide
    · decide
    · decide
    · exact ⟨(hauthority b hb).1, (hauthority b hb).2.2.2.2⟩
    · exact ⟨(hplain b hb).1, (hplain b hb).2.2⟩
  have hctl : containsCTLByte (scheme ++ 0x3A :: 0x2F :: 0x2F :: (authority ++ path)) = false := by
    apply List.any_eq_false.mpr
    intro b hb
    simpa using (hbytes b hb).2
  have hstar : scheme ++ 0x3A :: 0x2F :: 0x2F :: (authority ++ path) ≠ [0x2A] := by
    intro heq
    have hcolon : (0x3A : UInt8) ∈ scheme ++ 0x3A :: 0x2F :: 0x2F :: (authority ++ path) :=
      List.mem_append_right _ List.mem_cons_self
    rw [heq] at hcolon
    exact absurd hcolon (by decide)
  have hmark : (0x3F : UInt8) ∉ 0x2F :: 0x2F :: (authority ++ path) := by
    intro hmem
    simp only [List.mem_append, List.mem_cons] at hmem
    rcases hmem with heq | heq | hmem | hmem
    · exact absurd heq (by decide)
    · exact absurd heq (by decide)
    · exact (hauthority _ hmem).2.2.1 rfl
    · exact (hplain _ hmem).2.1 rfl
  have hquery : splitQuery (0x2F :: 0x2F :: (authority ++ path)) =
      (0x2F :: 0x2F :: (authority ++ path), false, []) := by
    rw [splitQuery, if_neg fun hand => hmark (List.mem_of_getLast? hand.1), cut_of_not_mem hmark]
  -- the authority ends where the path begins
  have hslash : ∀ c ∈ authority, (c != 0x2F) = true := fun c hc => by
    simpa using (hauthority c hc).2.1
  have hsplit : (authority ++ path).takeWhile (· != 0x2F) = authority ∧
      (authority ++ path).dropWhile (· != 0x2F) = path := by
    rw [List.takeWhile_append_of_pos hslash, List.dropWhile_append_of_pos hslash]
    rcases hrooted with rfl | ⟨rest, rfl⟩
    · exact ⟨List.append_nil _, rfl⟩
    · exact ⟨List.append_nil _, rfl⟩
  have hauth : parseAuthority authority = some (none, host) := by
    rw [parseAuthority, cutLast, if_neg fun hmem => (hauthority _ hmem).2.2.2.1 rfl]
    show (parseHost authority).map (fun host => (none, host)) = some (none, host)
    rw [hhost, Option.map_some]
  have hset : setPath path = some (path, []) := by
    rw [setPath, unescape_path_plain fun hmem => (path_byte_plain _ (hpath _ hmem)).2.2.2 rfl,
      Option.map_some, escape_plain hpath, if_pos rfl]
  have hone : [0x2F, 0x2F] <+: 0x2F :: 0x2F :: (authority ++ path) := ⟨_, rfl⟩
  have hgo : Go.parse u false (scheme ++ 0x3A :: 0x2F :: 0x2F :: (authority ++ path)) =
      some { scheme := toLower u scheme, host := host, path := path } := by
    unfold Go.parse
    rw [hctl, if_neg Bool.false_ne_true, if_neg fun hand => Bool.false_ne_true hand.2,
      if_neg hstar, getScheme_scheme hscheme]
    show parseHierarchy false _ _ = _
    rw [hquery]
    refine parseHierarchy_authority _ _ (toLower_ne_nil u hscheme.ne_nil) hone ?_ ?_
    · simpa [hsplit.1] using hauth
    · simpa [hsplit.2] using hset
  have hhash : (0x23 : UInt8) ∉ scheme ++ 0x3A :: 0x2F :: 0x2F :: (authority ++ path) :=
    fun hmem => (hbytes _ hmem).1 rfl
  rw [Url.parse, cut_of_not_mem hhash, hgo]
  rfl

end

/-! ## Bare hosts -/

/-- Reading escapes shortens a text, unless it holds none. -/
theorem unescape_length {mode : Encoding} (hmode : mode ≠ .queryComponent) :
    ∀ {s t : GoString}, unescape mode s = some t →
      t.length ≤ s.length ∧ (t.length = s.length → (0x25 : UInt8) ∉ s ∧ t = s)
  | [], t, h => by
    cases h
    exact ⟨le_rfl, fun _ => ⟨by simp, rfl⟩⟩
  | c :: s, t, h => by
    rcases unescape_cons h with
      ⟨hc, -, t', ht', rfl⟩ | ⟨rfl, x, y, rest, t', rfl, -, -, -, ht', rfl⟩
    · obtain ⟨hle, hsame⟩ := unescape_length hmode ht'
      have hplain : plainByte mode c = c := if_neg fun hand => hmode hand.2
      rw [List.length_cons, List.length_cons]
      refine ⟨by omega, fun heq => ?_⟩
      obtain ⟨hnone, rfl⟩ := hsame (by omega)
      refine ⟨?_, by rw [hplain]⟩
      rintro (_ | ⟨_, hmem⟩)
      · exact hc rfl
      · exact hnone hmem
    · obtain ⟨hle, -⟩ := unescape_length hmode ht'
      simp only [List.length_cons]
      exact ⟨by omega, fun heq => by omega⟩

theorem unescapeZoned_length {name t : GoString} (h : parseHost.unescapeZoned name = some t) :
    t.length ≤ name.length := by
  unfold parseHost.unescapeZoned at h
  split at h
  · rename_i address zone hsplit
    split at h
    · rename_i address' zone' haddress hzone
      cases h
      have hfront := (unescape_length (by decide) haddress).1
      have hback := (unescape_length (by decide) hzone).1
      rw [hash_not_mem_of_parseHost.splitZone_eq_some hsplit, List.length_append,
        List.length_append]
      omega
    · cases h
  · exact (unescape_length (by decide) h).1

/-- The name in brackets is shorter than what holds it. -/
theorem splitHostPort_brackets (name : GoString) :
    (splitHostPort (0x5B :: (name ++ [0x5D]))).1.length < name.length + 2 := by
  have hlength : (0x5B :: (name ++ [0x5D]) : GoString).length = name.length + 2 := by
    rw [List.length_cons, List.length_append, List.length_singleton]
  have hwhole : [0x5B] <+: (0x5B :: (name ++ [0x5D]) : GoString) ∧
      [0x5D] <:+ (0x5B :: (name ++ [0x5D]) : GoString) := ⟨⟨_, rfl⟩, ⟨0x5B :: name, rfl⟩⟩
  unfold splitHostPort
  cases hcut : cutLast 0x3A (0x5B :: (name ++ [0x5D])) with
  | none =>
    dsimp only
    rw [if_pos hwhole]
    simp
  | some parts =>
    obtain ⟨host, port⟩ := parts
    have hparts := congrArg List.length (cutLast_eq_some hcut)
    rw [hlength, List.length_append, List.length_cons] at hparts
    dsimp only
    by_cases hdigits : port.all isDigit = true
    · rw [if_pos hdigits]
      dsimp only
      split_ifs
      · simp only [List.length_dropLast, List.length_drop]
        omega
      · dsimp only
        omega
    · rw [if_neg hdigits]
      dsimp only
      rw [if_pos hwhole]
      simp

theorem splitHostPort_length (host : GoString) : (splitHostPort host).1.length ≤ host.length := by
  unfold splitHostPort
  cases hcut : cutLast 0x3A host with
  | none =>
    dsimp only
    split_ifs
    · simp only [List.length_dropLast, List.length_drop]
      omega
    · exact le_rfl
  | some parts =>
    obtain ⟨front, port⟩ := parts
    have hparts := congrArg List.length (cutLast_eq_some hcut)
    rw [List.length_append, List.length_cons] at hparts
    dsimp only
    by_cases hdigits : port.all isDigit = true
    · rw [if_pos hdigits]
      dsimp only
      split_ifs
      · simp only [List.length_dropLast, List.length_drop]
        omega
      · dsimp only
        omega
    · rw [if_neg hdigits]
      dsimp only
      split_ifs
      · simp only [List.length_dropLast, List.length_drop]
        omega
      · exact le_rfl

/-- A host without a colon whose name is as long as its text is that text: it has neither
brackets nor escapes. -/
theorem parseHost_of_length {s host : GoString} (h : parseHost s = some host)
    (hcolon : (0x3A : UInt8) ∉ s) (hlength : s.length ≤ (splitHostPort host).1.length) :
    host = s ∧ unescape .host s = some s ∧ (0x25 : UInt8) ∉ s ∧ (0x5B : UInt8) ∉ s := by
  have hname := splitHostPort_length host
  unfold parseHost at h
  split at h
  · rename_i before inside hopen
    split_ifs at h with hbefore
    split at h
    · cases h
    · rename_i name colonPort hclose
      split_ifs at h with hport
      split at h
      · rename_i colonPort' name' hcolonPort hzoned
        have hwhole : s = 0x5B :: (name ++ 0x5D :: colonPort) := by
          rw [cutLast_eq_some hopen, cutLast_eq_some hclose, not_not.mp hbefore]
          rfl
        obtain rfl : colonPort = [] := by
          cases colonPort with
          | nil => rfl
          | cons c rest =>
            rw [validOptionalPort, Bool.and_eq_true, beq_iff_eq] at hport
            exact absurd (by rw [hwhole, hport.1]; simp) hcolon
        cases hcolonPort
        split at h
        · split_ifs at h
          cases h
          have hshort := splitHostPort_brackets name'
          have hle := unescapeZoned_length hzoned
          rw [hwhole] at hlength
          simp only [List.length_cons, List.length_append, List.length_nil] at hlength
          have hform : (0x5B :: name' ++ 0x5D :: [] : GoString) = 0x5B :: (name' ++ [0x5D]) := rfl
          rw [hform] at hlength
          omega
        · cases h
      · cases h
  · rename_i hnone
    split_ifs at h
    obtain ⟨hle, hsame⟩ := unescape_length (by decide) h
    obtain ⟨hpercent, rfl⟩ := hsame (by omega)
    refine ⟨rfl, h, hpercent, fun hmem => ?_⟩
    rw [cutLast, if_pos hmem] at hnone
    cases hnone

/-- A host name that `Url.parse` reads back as itself is its own host. -/
theorem parseHost_of_hostname {u : Unicode} {name : GoString} {url : Url}
    (hparse : Url.parse u (0x2F :: 0x2F :: name) = some url) (hname : url.hostname = name)
    (hslash : (0x2F : UInt8) ∉ name) (hcolon : (0x3A : UInt8) ∉ name)
    (hat : (0x40 : UInt8) ∉ name) :
    url.host = name ∧ unescape .host name = some name ∧ (0x25 : UInt8) ∉ name ∧
      (0x5B : UInt8) ∉ name := by
  unfold Url.parse at hparse
  split at hparse
  · cases hparse
  rename_i read hread
  obtain ⟨fragment, -, rfl⟩ := Option.map_eq_some_iff.mp hparse
  -- what is before a number sign and a question mark is a part of the name
  have hfront : (cut 0x23 (0x2F :: 0x2F :: name)).1 =
      0x2F :: 0x2F :: name.takeWhile (· != 0x23) := rfl
  obtain ⟨front, hpart⟩ : ∃ front, front = name.takeWhile (· != 0x23) := ⟨_, rfl⟩
  rw [hfront, ← hpart] at hread
  have hfront : front.takeWhile (· != 0x3F) <+: name :=
    (List.takeWhile_prefix _).trans (hpart ▸ List.takeWhile_prefix _)
  have hauthority : (front.takeWhile (· != 0x3F)).takeWhile (· != 0x2F) =
      front.takeWhile (· != 0x3F) :=
    takeWhile_eq_self_of_not_mem fun hmem => hslash (hfront.subset hmem)
  have hscheme : getScheme (0x2F :: 0x2F :: front) = some ([], 0x2F :: 0x2F :: front) := rfl
  unfold Go.parse at hread
  split_ifs at hread with hctl hnil hstar
  · cases hstar
  rw [hscheme] at hread
  dsimp only at hread
  rw [splitQuery_fst] at hread
  have hrest : (0x2F :: 0x2F :: front : GoString).takeWhile (· != 0x3F) =
      0x2F :: 0x2F :: front.takeWhile (· != 0x3F) := rfl
  rw [hrest] at hread
  have hone : [0x2F] <+: (0x2F :: 0x2F :: front.takeWhile (· != 0x3F) : GoString) := ⟨_, rfl⟩
  have hthree : ¬ [0x2F, 0x2F, 0x2F] <+:
      (0x2F :: 0x2F :: front.takeWhile (· != 0x3F) : GoString) := by
    rintro ⟨rest, heq⟩
    have hmem : (0x2F : UInt8) ∈ front.takeWhile (· != 0x3F) := by
      rw [← (List.cons.inj (List.cons.inj heq).2).2]
      exact List.mem_cons_self
    exact hslash (hfront.subset hmem)
  have htwo : [0x2F, 0x2F] <+: (0x2F :: 0x2F :: front.takeWhile (· != 0x3F) : GoString) :=
    ⟨_, rfl⟩
  rw [parseHierarchy, if_neg fun hand => hand.1 hone, if_neg fun hand => hand.1 hone,
    if_neg fun hand => hand.1 hone,
    if_pos ⟨.inr ⟨Bool.false_ne_true, hthree⟩, htwo⟩] at hread
  simp only [List.drop_succ_cons, List.drop_zero, hauthority] at hread
  split at hread
  · rename_i user host path rawPath hauth hpath
    cases hread
    rw [parseAuthority, cutLast, if_neg fun hmem => hat (hfront.subset hmem)] at hauth
    obtain ⟨read, hhost, heq⟩ := Option.map_eq_some_iff.mp hauth
    cases heq
    have hlength := hfront.length_le
    have hshort := congrArg List.length hname
    unfold Url.hostname at hshort
    dsimp only at hshort
    obtain ⟨rfl, hplain, hpercent, hopen⟩ := parseHost_of_length hhost
      (fun hmem => hcolon (hfront.subset hmem)) (by omega)
    have hall : front.takeWhile (· != 0x3F) = name := by
      have hle := splitHostPort_length (front.takeWhile (· != 0x3F))
      exact hfront.eq_of_length (by omega)
    rw [hall] at hplain hpercent hopen
    exact ⟨hall, hplain, hpercent, hopen⟩
  · cases hread

/-- A byte of an escaped text is one of the text, or of an escape. -/
theorem mem_escape {mode : Encoding} (hmode : mode ≠ .queryComponent) {s : GoString} {b : UInt8}
    (hb : b ∈ escape mode s) : b ∈ s ∨ b = 0x25 ∨ isHex b := by
  obtain ⟨c, hc, hbyte⟩ := List.mem_flatMap.mp hb
  have hbyte : b ∈ escapeByte mode c := hbyte
  rcases escapeByte_cases hmode c with ⟨hplain, -⟩ | hescaped
  · rw [hplain, List.mem_singleton] at hbyte
    exact .inl (hbyte ▸ hc)
  · obtain ⟨hhigh, hlow, -⟩ := upperHex_byte c
    rw [hescaped] at hbyte
    simp only [List.mem_cons, List.not_mem_nil, or_false] at hbyte
    rcases hbyte with rfl | rfl | rfl
    · exact .inr (.inl rfl)
    · exact .inr (.inr hhigh)
    · exact .inr (.inr hlow)

theorem unescape_percent {mode : Encoding} {h l : UInt8} {s t : GoString} (hh : isHex h)
    (hl : isHex l) (hallowed : escapeAllowed mode h l) (hs : unescape mode s = some t) :
    unescape mode (0x25 :: h :: l :: s) =
      some (UInt8.ofNat (unhex h * 16 + unhex l) :: t) := by
  rw [unescape, if_pos rfl, hh, hl, hallowed, hs]
  rfl

/-- A host that is read as itself is read as itself when it is escaped. -/
theorem unescape_escape_host {s : GoString} (h : unescape .host s = some s)
    (hpercent : (0x25 : UInt8) ∉ s) : unescape .host (escape .host s) = some s := by
  induction s with
  | nil => rfl
  | cons c s ih =>
    rcases unescape_cons h with ⟨hc, hallowed, t, ht, heq⟩ | ⟨hc, -⟩
    · obtain rfl : s = t := (List.cons.inj heq).2
      have hrest := ih ht fun hmem => hpercent (List.mem_cons_of_mem c hmem)
      rw [escape_cons]
      by_cases hescape : shouldEscape c .host = true
      · obtain ⟨hhigh, hlow, hvalue⟩ := upperHex_byte c
        have hbyte : escapeByte .host c =
            [0x25, upperHex (c.toNat / 16), upperHex (c.toNat % 16)] := by
          rw [escapeByte, if_pos hescape, if_neg fun hand => absurd hand.2 (by decide)]
        rw [hbyte]
        refine (unescape_percent hhigh hlow ((address_byte c).2.2.2 hallowed hescape) hrest).trans ?_
        rw [hvalue]
      · have hbyte : escapeByte .host c = [c] := by
          rw [escapeByte, if_neg hescape]
        rw [hbyte]
        refine (unescape_plain hc hallowed hrest).trans ?_
        rw [plainByte, if_neg fun hand => absurd hand.2 (by decide)]
    · exact absurd (hc ▸ List.mem_cons_self) hpercent

/-- A bare host name is read again when it is printed. -/
theorem parseHost_escape_self {s : GoString} (h : unescape .host s = some s)
    (hpercent : (0x25 : UInt8) ∉ s) (hopen : (0x5B : UInt8) ∉ s) (hcolon : (0x3A : UInt8) ∉ s) :
    parseHost (escape .host s) = some s := by
  have hnot : ∀ c : UInt8, c ∉ s → c ≠ 0x25 → isHex c = false → c ∉ escape .host s := by
    intro c hc hne hhex hmem
    rcases mem_escape (by decide) hmem with hin | heq | hdigit
    · exact hc hin
    · exact hne heq
    · rw [hhex] at hdigit
      cases hdigit
  have hcut : cutLast 0x5B (escape .host s) = none := by
    rw [cutLast, if_neg (hnot 0x5B hopen (by decide) (by decide))]
  have hport : (escape .host s).dropWhile (· != 0x3A) = [] := by
    refine List.dropWhile_eq_nil_iff.mpr fun b hb => ?_
    rw [bne_iff_ne]
    rintro rfl
    exact hnot 0x3A hcolon (by decide) (by decide) hb
  rw [parseHost, hcut]
  dsimp only
  rw [hport]
  exact (if_pos rfl).trans (unescape_escape_host h hpercent)

end Purels.Go
