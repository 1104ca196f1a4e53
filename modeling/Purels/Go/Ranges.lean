import Purels.Go.NetIP
import Purels.Lib.Prefixes

/-!
# Address ranges

The ranges behind the classification methods of `net.IP`, as prefixes of the sixteen bytes
of an address.

* `v4Prefix`: an IPv4 range, in its mapped form.
* `isLoopback_iff` and its companions: each method says whether the address is in one of
  the ranges of its name.
-/

namespace Purels.Go

open Lib Prefix

/-- An IPv4 range, as IPv4 addresses are mapped into IPv6. -/
def v4Prefix (bytes : List UInt8) (length : Nat) : Prefix := ⟨v4InV6 ++ bytes, length + 96⟩

/-- The address is in one of the ranges. -/
def InAny (ranges : List Prefix) (ip : List UInt8) : Prop := ∃ range ∈ ranges, range.contains ip

instance (ranges : List Prefix) (ip : List UInt8) : Decidable (InAny ranges ip) :=
  inferInstanceAs (Decidable (∃ range ∈ ranges, _))

def loopbackRanges : List Prefix := [v4Prefix [127, 0, 0, 0] 8, ⟨List.replicate 15 0 ++ [1], 128⟩]

/-- RFC 1918 and RFC 4193. -/
def privateRanges : List Prefix :=
  [v4Prefix [10, 0, 0, 0] 8, v4Prefix [172, 16, 0, 0] 12, v4Prefix [192, 168, 0, 0] 16,
    ⟨0xFC :: List.replicate 15 0, 7⟩]

def linkLocalRanges : List Prefix :=
  [v4Prefix [169, 254, 0, 0] 16, ⟨0xFE :: 0x80 :: List.replicate 14 0, 10⟩]

def unspecifiedRanges : List Prefix := [v4Prefix [0, 0, 0, 0] 32, ⟨List.replicate 16 0, 128⟩]

def multicastRanges : List Prefix :=
  [v4Prefix [224, 0, 0, 0] 4, ⟨0xFF :: List.replicate 15 0, 8⟩]

/-! ## Ranges -/

theorem inAny_cons {range : Prefix} {ranges : List Prefix} {ip : List UInt8} :
    InAny (range :: ranges) ip ↔ range.contains ip ∨ InAny ranges ip := by
  simp [InAny]

theorem inAny_nil (ip : List UInt8) : ¬ InAny [] ip := by simp [InAny]

theorem inAny_append {ranges others : List Prefix} {ip : List UInt8} :
    InAny (ranges ++ others) ip ↔ InAny ranges ip ∨ InAny others ip := by
  simp [InAny, or_and_right, exists_or]

theorem inAny_mono {ranges others : List Prefix} {ip : List UInt8}
    (hsub : ∀ range ∈ ranges, range ∈ others) (h : InAny ranges ip) : InAny others ip := by
  obtain ⟨range, hrange, hcontains⟩ := h
  exact ⟨range, hsub range hrange, hcontains⟩

/-- No address is in ranges that do not overlap. -/
theorem inAny_apart {ranges others : List Prefix} {ip : List UInt8}
    (hapart : ∀ range ∈ ranges, ∀ other ∈ others, ¬ range.overlaps other)
    (h : InAny ranges ip) : ¬ InAny others ip := by
  rintro ⟨other, hother, hin⟩
  obtain ⟨range, hrange, hcontains⟩ := h
  exact hapart range hrange other hother (overlaps_of_contains hcontains hin)

theorem contains_v4Prefix {bytes ip : List UInt8} {n : Nat} :
    (v4Prefix bytes n).contains ip ↔ v4InV6 <+: ip ∧ contains ⟨bytes, n⟩ (ip.drop 12) :=
  contains_append

/-- An IPv4 range of whole bytes. -/
theorem contains_v4Prefix_mapped {bytes v4 : List UInt8} {n : Nat} :
    (v4Prefix bytes n).contains (v4InV6 ++ v4) ↔ contains ⟨bytes, n⟩ v4 :=
  contains_v4Prefix.trans (and_iff_right (List.prefix_append ..))

/-- A range of one address. -/
theorem contains_full {bytes ip : List UInt8} (hbytes : bytes.length = 16) (hip : ip.length = 16) :
    contains ⟨bytes, 128⟩ ip ↔ bytes = ip := by
  have happend : contains ⟨bytes ++ [], 0 + 8 * bytes.length⟩ ip ↔
      bytes <+: ip ∧ contains ⟨[], 0⟩ (ip.drop bytes.length) := contains_append
  rw [List.append_nil, hbytes] at happend
  rw [happend, and_iff_left (contains_zero ..)]
  constructor
  · intro h
    exact h.eq_of_length (hbytes.trans hip.symm)
  · rintro rfl
    exact List.prefix_refl _

theorem contains_byte {a b : UInt8} {bytes ip : List UInt8} :
    contains ⟨a :: bytes, 8⟩ (b :: ip) ↔ a = b :=
  (contains_cons (n := 0)).trans (and_iff_left (contains_zero ..))

theorem contains_two {a b c d : UInt8} {bytes ip : List UInt8} :
    contains ⟨a :: b :: bytes, 16⟩ (c :: d :: ip) ↔ a = c ∧ b = d :=
  (contains_cons (n := 8)).trans (and_congr_right' contains_byte)

/-! ## The methods -/

section

variable {ip : List UInt8}

theorem beq_comm_iff {α : Type*} [BEq α] [LawfulBEq α] {a b : α} : (a == b) = true ↔ b = a :=
  beq_iff_eq.trans eq_comm

theorem isLoopback_iff (h : ip.length = 16) : isLoopback ip ↔ InAny loopbackRanges ip := by
  unfold isLoopback loopbackRanges
  rw [inAny_cons, inAny_cons, or_iff_left (inAny_nil ip)]
  rcases to4_cases h with ⟨a, b, c, d, rfl, hto4⟩ | ⟨hmapped, hto4⟩
  · have hv6 : ¬ contains ⟨List.replicate 15 0 ++ [1], 128⟩ (v4InV6 ++ [a, b, c, d]) := by
      rw [contains_full rfl h]
      intro hsame
      have htenth : (0 : UInt8) = 0xFF := congrArg (List.getD · 10 0) hsame
      exact absurd htenth (by decide)
    rw [hto4, or_iff_left hv6, contains_v4Prefix_mapped, contains_byte]
    show (some a == some 127) = true ↔ 127 = a
    rw [beq_comm_iff, Option.some.injEq]
  · rw [hto4, contains_v4Prefix, contains_full rfl h, or_iff_right fun hv4 => hmapped hv4.1]
    exact beq_comm_iff

theorem isUnspecified_iff (h : ip.length = 16) :
    isUnspecified ip ↔ InAny unspecifiedRanges ip := by
  have hv4 : (v4Prefix [0, 0, 0, 0] 32).contains ip ↔ v4InV6 ++ [0, 0, 0, 0] = ip :=
    contains_full rfl h
  unfold isUnspecified unspecifiedRanges
  rw [inAny_cons, inAny_cons, or_iff_left (inAny_nil ip), hv4, contains_full rfl h,
    Bool.or_eq_true, beq_comm_iff, beq_comm_iff]

/-- What the masks of the methods say of the bits. -/
theorem mask_iff (b : UInt8) :
    ((b &&& 0xF0 == 16) = true ↔ (bitsOf 16).take 4 = (bitsOf b).take 4) ∧
      ((b &&& 0xF0 == 0xE0) = true ↔ (bitsOf 224).take 4 = (bitsOf b).take 4) ∧
      ((b &&& 0xFE == 0xFC) = true ↔ (bitsOf 0xFC).take 7 = (bitsOf b).take 7) ∧
      ((b &&& 0xC0 == 0x80) = true ↔ (bitsOf 0x80).take 2 = (bitsOf b).take 2) :=
  forall_byte b (by decide +kernel)

theorem isPrivate_iff (h : ip.length = 16) : isPrivate ip ↔ InAny privateRanges ip := by
  unfold isPrivate privateRanges
  rw [inAny_cons, inAny_cons, inAny_cons, inAny_cons, or_iff_left (inAny_nil ip)]
  rcases to4_cases h with ⟨a, b, c, d, rfl, hto4⟩ | ⟨hmapped, hto4⟩
  · have hv6 : ¬ contains ⟨0xFC :: List.replicate 15 0, 7⟩ (v4InV6 ++ [a, b, c, d]) := by
      rw [v4InV6, List.cons_append, contains_part (by decide)]
      decide
    have htwelve : contains ⟨[172, 16, 0, 0], 12⟩ [a, b, c, d] ↔
        172 = a ∧ (bitsOf 16).take 4 = (bitsOf b).take 4 :=
      (contains_cons (n := 4)).trans (and_congr_right' (contains_part (by decide)))
    rw [hto4, or_iff_left hv6, contains_v4Prefix_mapped, contains_v4Prefix_mapped,
      contains_v4Prefix_mapped, contains_byte, htwelve, contains_two, ← (mask_iff b).1]
    show (a == 10 || (a == 172 && b &&& 0xF0 == 16) || (a == 192 && b == 168)) = true ↔ _
    rw [Bool.or_eq_true, Bool.or_eq_true, Bool.and_eq_true, Bool.and_eq_true,
      beq_comm_iff (b := 10), beq_comm_iff (b := 172), beq_comm_iff (b := 192),
      beq_comm_iff (b := 168), or_assoc]
  · obtain ⟨first, rest, rfl⟩ := List.exists_cons_of_length_pos (by omega : 0 < ip.length)
    rw [hto4, contains_v4Prefix, contains_v4Prefix, contains_v4Prefix,
      contains_part (by decide), ← (mask_iff first).2.2.1, or_iff_right fun hv4 => hmapped hv4.1,
      or_iff_right fun hv4 => hmapped hv4.1, or_iff_right fun hv4 => hmapped hv4.1]

theorem isLinkLocalUnicast_iff (h : ip.length = 16) :
    isLinkLocalUnicast ip ↔ InAny linkLocalRanges ip := by
  unfold isLinkLocalUnicast linkLocalRanges
  rw [inAny_cons, inAny_cons, or_iff_left (inAny_nil ip)]
  rcases to4_cases h with ⟨a, b, c, d, rfl, hto4⟩ | ⟨hmapped, hto4⟩
  · have hv6 : ¬ contains ⟨0xFE :: 0x80 :: List.replicate 14 0, 10⟩ (v4InV6 ++ [a, b, c, d]) := by
      rw [v4InV6, List.cons_append, List.cons_append]
      intro hten
      exact absurd ((contains_cons (n := 2)).mp hten).1 (by decide)
    rw [hto4, or_iff_left hv6, contains_v4Prefix_mapped, contains_two]
    show (a == 169 && b == 254) = true ↔ _
    rw [Bool.and_eq_true, beq_comm_iff, beq_comm_iff]
  · obtain ⟨first, rest, rfl⟩ := List.exists_cons_of_length_pos (by omega : 0 < ip.length)
    rw [List.length_cons] at h
    obtain ⟨second, rest, rfl⟩ := List.exists_cons_of_length_pos (by omega : 0 < rest.length)
    have hten : contains ⟨0xFE :: 0x80 :: List.replicate 14 0, 10⟩ (first :: second :: rest) ↔
        0xFE = first ∧ (bitsOf 0x80).take 2 = (bitsOf second).take 2 :=
      (contains_cons (n := 2)).trans (and_congr_right' (contains_part (by decide)))
    rw [hto4, contains_v4Prefix, hten, ← (mask_iff second).2.2.2,
      or_iff_right fun hv4 => hmapped hv4.1]
    show (first == 0xFE && second &&& 0xC0 == 0x80) = true ↔ _
    rw [Bool.and_eq_true, beq_comm_iff (b := 0xFE)]

theorem isMulticast_iff (h : ip.length = 16) : isMulticast ip ↔ InAny multicastRanges ip := by
  unfold isMulticast multicastRanges
  rw [inAny_cons, inAny_cons, or_iff_left (inAny_nil ip)]
  rcases to4_cases h with ⟨a, b, c, d, rfl, hto4⟩ | ⟨hmapped, hto4⟩
  · have hv6 : ¬ contains ⟨0xFF :: List.replicate 15 0, 8⟩ (v4InV6 ++ [a, b, c, d]) := by
      rw [v4InV6, List.cons_append, contains_byte]
      decide
    rw [hto4, or_iff_left hv6, contains_v4Prefix_mapped, contains_part (by decide),
      ← (mask_iff a).2.1]
  · obtain ⟨first, rest, rfl⟩ := List.exists_cons_of_length_pos (by omega : 0 < ip.length)
    rw [hto4, contains_v4Prefix, contains_byte, or_iff_right fun hv4 => hmapped hv4.1]
    exact beq_comm_iff

end

end Purels.Go
