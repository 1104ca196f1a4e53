import Purels.Go.IPString

/-!
# The digests of addresses

`IPHasher` and `truncateIP`: what is stored of a client address.

* `NormalizeIPMode`, `IPHasher.Name`, `truncateIP`, `IPHasher.Hash`.
* `network` and `parseIP_truncateIP`: a truncated address is the network it names.
* `SameNetwork`, `truncateIP_eq_iff`: two addresses are truncated to one text when they share
  a network.
* `hash_reveals_network`: what two digests in the anonymised mode tell.
-/

namespace Purels.Security

open Go

/-! ## Modes -/

def IPModeNone : GoString := lit "none"

def IPModeAnonymised : GoString := lit "anonymised"

def IPModePseudonymised : GoString := lit "pseudonymised"

def DefaultIPMode : GoString := IPModePseudonymised

/-- `NormalizeIPMode`: a mode of the vocabulary, the default for any other text. -/
def NormalizeIPMode (u : Unicode) (mode : GoString) : GoString :=
  let normalized := toLower u (trimSpace mode)
  if normalized = IPModeNone ∨ normalized = IPModeAnonymised ∨
      normalized = IPModePseudonymised then normalized
  else DefaultIPMode

/-- `IPHasher`. -/
structure IPHasher where
  mode : GoString := []
  key : List UInt8 := []

/-- `Name`. -/
def IPHasher.Name (u : Unicode) (h : IPHasher) : GoString := NormalizeIPMode u h.mode

/-! ## Digests -/

/-- `truncateIP`: without the last octet, or without the last ten bytes.  What does not parse
comes back unchanged. -/
def truncateIP (ip : GoString) : GoString :=
  match parseIP ip with
  | none => ip
  | some parsed =>
    match to4 parsed with
    | some v4 => ipString (v4.take 3 ++ [0])
    | none => ipString (parsed.take 6 ++ List.replicate 10 0)

example : truncateIP (lit "::FFFF:203.0.113.9") = lit "203.0.113.0" := by decide
example : truncateIP (lit "2001:DB8::1") = lit "2001:db8::" := by decide

section

variable (sha256 : GoString → List UInt8) (hmac : List UInt8 → GoString → List UInt8)

/-- The digest of a text, an HMAC with a key. -/
def IPHasher.digest (h : IPHasher) (text : GoString) : List UInt8 :=
  if 0 < h.key.length then hmac h.key text else sha256 text

/-- `Hash`: none in the mode that stores nothing, and of no address. -/
def IPHasher.Hash (u : Unicode) (h : IPHasher) (ip : GoString) : Option (List UInt8) :=
  let ip := trimSpace ip
  let mode := h.Name u
  if ip = [] ∨ mode = IPModeNone then none
  else
    let ip := if mode = IPModeAnonymised then truncateIP ip else ip
    some (h.digest sha256 hmac ip)

end

/-! ## Networks -/

/-- An address without the bits of its host. -/
def network (ip : List UInt8) : List UInt8 :=
  match to4 ip with
  | some v4 => v4InV6 ++ (v4.take 3 ++ [0])
  | none => ip.take 6 ++ List.replicate 10 0

/-- Both are IPv4, plain or mapped, of one /24, or both are other addresses of one /48. -/
def SameNetwork (a b : List UInt8) : Prop :=
  (∃ x y, to4 a = some x ∧ to4 b = some y ∧ x.take 3 = y.take 3) ∨
    (to4 a = none ∧ to4 b = none ∧ a.take 6 = b.take 6)

section

variable {a b : List UInt8}

/-- The four bytes of a mapped address. -/
theorem to4_some {v4 : List UInt8} (hlength : a.length = 16) (h : to4 a = some v4) :
    ∃ w x y z, v4 = [w, x, y, z] ∧ a = v4InV6 ++ [w, x, y, z] := by
  unfold to4 at h
  split_ifs at h with hprefix
  obtain ⟨rest, rfl⟩ := hprefix
  cases h
  have hrest : rest.length = 4 := by
    rw [List.length_append] at hlength
    exact Nat.add_left_cancel (hlength.trans (show 16 = v4InV6.length + 4 from rfl))
  obtain ⟨w, x, y, z, rfl⟩ := List.length_eq_four.mp hrest
  exact ⟨w, x, y, z, rfl, rfl⟩

theorem to4_mapped (v4 : List UInt8) : to4 (v4InV6 ++ v4) = some v4 := by
  rw [to4, if_pos (List.prefix_append _ _)]
  rfl

/-- The first six bytes of an address. -/
theorem take_six (hlength : a.length = 16) :
    ∃ b0 b1 b2 b3 b4 b5, a.take 6 = [b0, b1, b2, b3, b4, b5] := by
  match a, hlength with
  | b0 :: b1 :: b2 :: b3 :: b4 :: b5 :: rest, _ => exact ⟨b0, b1, b2, b3, b4, b5, rfl⟩

/-- A network of IPv6 maps no IPv4 address. -/
theorem to4_network_none (b0 b1 b2 b3 b4 b5 : UInt8) :
    to4 ([b0, b1, b2, b3, b4, b5] ++ List.replicate 10 0) = none := by
  rw [to4, if_neg]
  intro hprefix
  obtain ⟨rest, hrest⟩ := hprefix
  have hat := congrArg (fun ip => ip[10]?) hrest
  exact absurd hat (by simp [v4InV6])

/-- The network of a network is itself. -/
theorem to4_network (hlength : a.length = 16) :
    to4 (network a) = (to4 a).map fun v4 => v4.take 3 ++ [0] := by
  unfold network
  cases h : to4 a with
  | some v4 => exact to4_mapped _
  | none =>
    obtain ⟨b0, b1, b2, b3, b4, b5, htake⟩ := take_six hlength
    show to4 (a.take 6 ++ List.replicate 10 0) = none
    rw [htake]
    exact to4_network_none ..

/-- What is left of an address is read as its network. -/
theorem parseIP_truncateIP {s : GoString} (h : parseIP s = some a) :
    parseIP (truncateIP s) = some (network a) := by
  have hlength := parseIP_length h
  cases hv4 : to4 a with
  | some v4 =>
    obtain ⟨w, x, y, z, rfl, -⟩ := to4_some hlength hv4
    simp only [truncateIP, network, h, hv4]
    exact parseIP_string4 w x y 0
  | none =>
    obtain ⟨b0, b1, b2, b3, b4, b5, htake⟩ := take_six hlength
    simp only [truncateIP, network, h, hv4]
    rw [htake, ipString, if_neg (by simp), to4_network_none]
    exact parseIP_string6_network ..

theorem network_eq_iff (ha : a.length = 16) (hb : b.length = 16) :
    network a = network b ↔ SameNetwork a b := by
  have hto4a := to4_network ha
  have hto4b := to4_network hb
  constructor
  · intro heq
    rw [heq, hto4b] at hto4a
    cases hv4 : to4 a with
    | some x =>
      cases hw4 : to4 b with
      | some y =>
        rw [hv4, hw4] at hto4a
        exact .inl ⟨x, y, hv4, hw4, (List.append_cancel_right (Option.some.inj hto4a)).symm⟩
      | none => simp [hv4, hw4] at hto4a
    | none =>
      cases hw4 : to4 b with
      | some y => simp [hv4, hw4] at hto4a
      | none =>
        simp only [network, hv4, hw4] at heq
        exact .inr ⟨hv4, hw4, List.append_cancel_right heq⟩
  · intro hsame
    rcases hsame with ⟨x, y, hx, hy, htake⟩ | ⟨hx, hy, htake⟩
    · simp only [network, hx, hy, htake]
    · simp only [network, hx, hy, htake]

/-- Two addresses are truncated to the same text exactly when they share a network. -/
theorem truncateIP_eq_iff {s t : GoString} (ha : parseIP s = some a) (hb : parseIP t = some b) :
    truncateIP s = truncateIP t ↔ SameNetwork a b := by
  rw [← network_eq_iff (parseIP_length ha) (parseIP_length hb)]
  constructor
  · intro heq
    have hread := parseIP_truncateIP ha
    rw [heq, parseIP_truncateIP hb] at hread
    exact (Option.some.inj hread).symm
  · intro heq
    have hsame := (network_eq_iff (parseIP_length ha) (parseIP_length hb)).mp heq
    unfold truncateIP
    rw [ha, hb]
    rcases hsame with ⟨x, y, hx, hy, htake⟩ | ⟨hx, hy, htake⟩
    · simp only [hx, hy, htake]
    · simp only [hx, hy, htake]

end

theorem truncateIP_truncateIP (ip : GoString) : truncateIP (truncateIP ip) = truncateIP ip := by
  cases h : parseIP ip with
  | none =>
    have hsame : truncateIP ip = ip := by rw [truncateIP, h]
    rw [hsame, hsame]
  | some a =>
    have hread := parseIP_truncateIP h
    rw [truncateIP_eq_iff hread h, ← network_eq_iff (parseIP_length hread) (parseIP_length h)]
    have hlength := parseIP_length h
    have hto4 := to4_network hlength
    rw [network, hto4]
    cases hv4 : to4 a with
    | some v4 =>
      obtain ⟨w, x, y, z, rfl, -⟩ := to4_some hlength hv4
      simp [network, hv4]
    | none =>
      obtain ⟨b0, b1, b2, b3, b4, b5, htake⟩ := take_six hlength
      simp [network, hv4, htake]

/-! ## What digests tell -/

/-- An address has nothing to trim. -/
theorem trimSpace_of_parseIP {s : GoString} {a : List UInt8} (h : parseIP s = some a) :
    trimSpace s = s ∧ s ≠ [] := by
  constructor
  · apply trimSpace_printable
    intro c hc
    have hbyte := parseIP_mem h c hc
    simp only [isAddrByte, isHex, isDigit, Bool.or_eq_true, Bool.and_eq_true, decide_eq_true_eq,
      beq_iff_eq] at hbyte
    rcases hbyte with (((_ | _) | _) | rfl) | rfl
    · omega
    · omega
    · omega
    · decide
    · decide
  · rintro rfl
    cases h

/-- Two addresses have one digest in the anonymised mode exactly when they share a network, but
for texts whose digests collide, and what is left of an address is left of it again. -/
theorem hash_reveals_network (sha256 : GoString → List UInt8)
    (hmac : List UInt8 → GoString → List UInt8) (u : Unicode) (h : IPHasher)
    (hmode : h.Name u = IPModeAnonymised) {s t : GoString} {a b : List UInt8}
    (hs : parseIP s = some a) (ht : parseIP t = some b) :
    (h.Hash sha256 hmac u s = h.Hash sha256 hmac u t ↔
      SameNetwork a b ∨ (truncateIP s ≠ truncateIP t ∧
        h.digest sha256 hmac (truncateIP s) = h.digest sha256 hmac (truncateIP t))) ∧
      ∀ ip, truncateIP (truncateIP ip) = truncateIP ip := by
  refine ⟨?_, truncateIP_truncateIP⟩
  have hhash : ∀ {r : GoString} {c : List UInt8}, parseIP r = some c →
      h.Hash sha256 hmac u r = some (h.digest sha256 hmac (truncateIP r)) := by
    intro r c hr
    obtain ⟨htrim, hne⟩ := trimSpace_of_parseIP hr
    unfold IPHasher.Hash
    rw [htrim, hmode, if_neg (not_or.mpr ⟨hne, by decide⟩), if_pos rfl]
  rw [hhash hs, hhash ht, Option.some.injEq, ← truncateIP_eq_iff hs ht]
  constructor
  · intro hdigest
    by_cases htext : truncateIP s = truncateIP t
    · exact .inl htext
    · exact .inr ⟨htext, hdigest⟩
  · rintro (htext | ⟨-, hdigest⟩)
    · rw [htext]
    · exact hdigest

/-- SHA-256 of one network. -/
def sha256OfNetwork (text : GoString) : List UInt8 :=
  if text = lit "203.0.113.0" then
    [0xAF, 0xF7, 0xBB, 0x5F, 0xDE, 0xF8, 0xF5, 0x2A, 0x20, 0x8B, 0x0B, 0xB4,
      0xE1, 0xB6, 0x6D, 0x0E, 0xCC, 0xF2, 0xA3, 0x32, 0x40, 0x9A, 0xE8, 0x3A,
      0x38, 0x8A, 0x38, 0xA9, 0x6A, 0x89, 0x26, 0x58]
  else []

/-- A client that reaches a dual-stack socket and its neighbour. -/
theorem hash_reveals_network_mapped :
    ({ mode := lit "anonymised" } : IPHasher).Hash sha256OfNetwork (fun _ _ => []) .ascii
        (lit "::ffff:203.0.113.9") =
      ({ mode := lit "anonymised" } : IPHasher).Hash sha256OfNetwork (fun _ _ => []) .ascii
        (lit "203.0.113.200") := by
  have hsame : SameNetwork (v4InV6 ++ [203, 0, 113, 9]) (v4InV6 ++ [203, 0, 113, 200]) :=
    .inl ⟨[203, 0, 113, 9], [203, 0, 113, 200], to4_mapped _, to4_mapped _, rfl⟩
  exact (hash_reveals_network sha256OfNetwork (fun _ _ => []) .ascii _ (by decide)
    (by decide) (by decide)).1.mpr (.inl hsame)

end Purels.Security
