import Purels.Go.Strings

/-!
# Textual IP addresses

`netip.ParseAddr` and `net.ParseIP`, and the classification methods of
`net.IP`.  An address is kept as the sixteen bytes of its IPv6 form, with a
flag for the addresses that were written as IPv4, because `net/url` treats the
two spellings differently.
-/

namespace Purels.Go

/-- `strings.Split` at one byte. -/
def split (c : UInt8) : GoString → List GoString
  | [] => [[]]
  | b :: rest =>
    if b = c then [] :: split c rest
    else
      match split c rest with
      | [] => [[b]]
      | field :: fields => (b :: field) :: fields

/-- A parsed address: its sixteen bytes, whether it was an IPv4 literal, and
its zone. -/
structure Addr where
  bytes : List UInt8
  is4 : Bool
  zone : GoString
  deriving DecidableEq

/-- The prefix of IPv4 addresses mapped into IPv6. -/
def v4InV6 : List UInt8 := [0, 0, 0, 0, 0, 0, 0, 0, 0, 0, 0xFF, 0xFF]

/-- One octet of a dotted address: at least one digit, no leading zero, at
most 255. -/
def parseOctet (field : GoString) : Option UInt8 :=
  if field ≠ [] ∧ field.all isDigit ∧ (field.length = 1 ∨ field.head? ≠ some 0x30) ∧
      decimal field ≤ 255 then
    some (UInt8.ofNat (decimal field))
  else none

/-- `parseIPv4Fields`: four octets. -/
def parseIPv4Fields (s : GoString) : Option (List UInt8) :=
  let fields := split 0x2E s
  if fields.length = 4 then fields.mapM parseOctet else none

/-- The loop of `parseIPv6` over colon-separated groups.  `out` holds the
bytes written so far and `ellipsis` the position of `::` among them.  The
result is the bytes, the ellipsis and what was not read. -/
def parseGroups : Nat → GoString → List UInt8 → Option Nat →
    Option (List UInt8 × Option Nat × GoString)
  | 0, s, out, ellipsis => some (out, ellipsis, s)
  | fuel + 1, s, out, ellipsis =>
    let digits := s.takeWhile isHex
    let rest := s.dropWhile isHex
    if digits = [] ∨ 4 < digits.length then none
    else
      match rest with
      | [] => some (out ++ group digits, ellipsis, [])
      | 0x2E :: _ =>
        -- a trailing dotted address takes the place of the last two groups
        if (ellipsis = none ∧ out.length ≠ 12) ∨ 16 < out.length + 4 then none
        else (parseIPv4Fields s).map fun v4 => (out ++ v4, ellipsis, [])
      | 0x3A :: [] => none
      | 0x3A :: 0x3A :: rest =>
        if ellipsis ≠ none then none
        else
          let out := out ++ group digits
          if rest = [] then some (out, some out.length, [])
          else parseGroups fuel rest out (some out.length)
      | 0x3A :: rest => parseGroups fuel rest (out ++ group digits) ellipsis
      | _ => none
where
  /-- The two bytes of one group. -/
  group (digits : GoString) : List UInt8 :=
    [UInt8.ofNat (hexadecimal digits / 256), UInt8.ofNat (hexadecimal digits % 256)]

/-- Fill the ellipsis with zeros up to sixteen bytes. -/
def expandEllipsis (out : List UInt8) : Option Nat → Option (List UInt8)
  | none => if out.length = 16 then some out else none
  | some at_ =>
    if out.length < 16 then
      some (out.take at_ ++ List.replicate (16 - out.length) 0 ++ out.drop at_)
    else none

/-- `parseIPv6`. -/
def parseIPv6 (s : GoString) : Option Addr := do
  let (body, zone) ←
    if 0x25 ∈ s then
      let (body, zone) := cut 0x25 s
      if zone = [] then none else some (body, zone)
    else some (s, [])
  let (out, ellipsis, rest) ←
    match body with
    | 0x3A :: 0x3A :: [] => some ([], some 0, [])
    | 0x3A :: 0x3A :: rest => parseGroups 8 rest [] (some 0)
    | _ => parseGroups 8 body [] none
  if rest ≠ [] then none
  let bytes ← expandEllipsis out ellipsis
  some { bytes, is4 := false, zone }

/-- `netip.ParseAddr`: the first of `.`, `:` and `%` decides. -/
def parseAddr (s : GoString) : Option Addr :=
  match s.find? (fun b => b == 0x2E || b == 0x3A || b == 0x25) with
  | some 0x2E =>
    (parseIPv4Fields s).map fun v4 => { bytes := v4InV6 ++ v4, is4 := true, zone := [] }
  | some 0x3A => parseIPv6 s
  | _ => none

/-- `net.ParseIP`: sixteen bytes, and no zone. -/
def parseIP (s : GoString) : Option (List UInt8) :=
  match parseAddr s with
  | some addr => if addr.zone = [] then some addr.bytes else none
  | none => none

example : parseIP (lit "127.0.0.1") = some (v4InV6 ++ [127, 0, 0, 1]) := by decide
example : parseIP (lit "::ffff:10.0.0.1") = some (v4InV6 ++ [10, 0, 0, 1]) := by decide
example : parseIP (lit "fe80::1%eth0") = none := by decide

/-! ## Classification -/

/-- `IP.To4`: the last four bytes of an address that is IPv4 or maps one. -/
def to4 (ip : List UInt8) : Option (List UInt8) :=
  if v4InV6 <+: ip then some (ip.drop 12) else none

/-- `IP.IsLoopback`. -/
def isLoopback (ip : List UInt8) : Bool :=
  match to4 ip with
  | some v4 => v4.head? == some 127
  | none => ip == List.replicate 15 0 ++ [1]

/-- `IP.IsPrivate`: RFC 1918 and RFC 4193. -/
def isPrivate (ip : List UInt8) : Bool :=
  match to4 ip with
  | some (a :: b :: _) =>
    a == 10 || (a == 172 && b &&& 0xF0 == 16) || (a == 192 && b == 168)
  | some _ => false
  | none =>
    match ip with
    | a :: _ => a &&& 0xFE == 0xFC
    | [] => false

/-- `IP.IsLinkLocalUnicast`. -/
def isLinkLocalUnicast (ip : List UInt8) : Bool :=
  match to4 ip with
  | some (a :: b :: _) => a == 169 && b == 254
  | some _ => false
  | none =>
    match ip with
    | a :: b :: _ => a == 0xFE && b &&& 0xC0 == 0x80
    | _ => false

/-- `IP.IsUnspecified`. -/
def isUnspecified (ip : List UInt8) : Bool :=
  ip == v4InV6 ++ [0, 0, 0, 0] || ip == List.replicate 16 0

/-- `IP.IsMulticast`. -/
def isMulticast (ip : List UInt8) : Bool :=
  match to4 ip with
  | some (a :: _) => a &&& 0xF0 == 0xE0
  | some [] => false
  | none =>
    match ip with
    | a :: _ => a == 0xFF
    | [] => false

/-- `IP.IsGlobalUnicast`. -/
def isGlobalUnicast (ip : List UInt8) : Bool :=
  ip.length == 16 && ip != v4InV6 ++ [255, 255, 255, 255] && !isUnspecified ip &&
    !isLoopback ip && !isMulticast ip && !isLinkLocalUnicast ip

/-- `IP.To16`: the methods read both forms of an IPv4 address alike. -/
def to16 (ip : List UInt8) : List UInt8 := if ip.length = 4 then v4InV6 ++ ip else ip

/-- An address of sixteen bytes maps an IPv4 one, or it does not. -/
theorem to4_cases {ip : List UInt8} (h : ip.length = 16) :
    (∃ a b c d, ip = v4InV6 ++ [a, b, c, d] ∧ to4 ip = some [a, b, c, d]) ∨
      (¬ v4InV6 <+: ip ∧ to4 ip = none) := by
  unfold to4
  by_cases hmapped : v4InV6 <+: ip
  · obtain ⟨rest, rfl⟩ := hmapped
    have hrest : rest.length = 4 := by
      rw [List.length_append] at h
      exact Nat.add_left_cancel (n := 12) h
    obtain ⟨a, b, c, d, rfl⟩ := List.length_eq_four.mp hrest
    exact .inl ⟨a, b, c, d, rfl, by rw [if_pos (List.prefix_append ..)]; rfl⟩
  · exact .inr ⟨hmapped, if_neg hmapped⟩

end Purels.Go
