import Purels.Go.IPText
import Purels.Go.Json

/-!
# Printing addresses

`net.IP.String`, for the addresses of four bytes and of sixteen.

* `string4`, `string6`: dotted octets, and groups with the longest run of zeros left out.
* `ipString`: the form an address is printed in.
* `parseIP_string4` and `parseIP_string6_network`: what is printed is read back.
-/

namespace Purels.Go

/-! ## Printing -/

/-- `appendDecimal`: an octet without leading zeros. -/
def decimalText (x : Nat) : GoString :=
  (if 100 ≤ x then [hexDigit (x / 100)] else []) ++
    (if 10 ≤ x then [hexDigit (x / 10 % 10)] else []) ++ [hexDigit (x % 10)]

/-- `appendHex`: a group without leading zeros. -/
def hexText (x : Nat) : GoString :=
  (if 0x1000 ≤ x then [hexDigit (x / 0x1000)] else []) ++
    (if 0x100 ≤ x then [hexDigit (x / 0x100 % 16)] else []) ++
      (if 0x10 ≤ x then [hexDigit (x / 0x10 % 16)] else []) ++ [hexDigit (x % 16)]

/-- `Addr.string4`. -/
def string4 : List UInt8 → GoString
  | [a, b, c, d] =>
    decimalText a.toNat ++ 0x2E :: (decimalText b.toNat ++ 0x2E :: (decimalText c.toNat ++
      0x2E :: decimalText d.toNat))
  | _ => []

/-- The groups of an address, two bytes each. -/
def addrGroups : List UInt8 → List Nat
  | high :: low :: rest => (high.toNat * 256 + low.toNat) :: addrGroups rest
  | _ => []

/-- The longest run of two zero groups or more, the first of several: where it begins and
where it ends. -/
def zeroRun (groups : List Nat) : Nat × Nat :=
  (List.range 8).foldl (fun best i =>
    let l := ((groups.drop i).takeWhile (· == 0)).length
    if 2 ≤ l ∧ best.2 - best.1 < l then (i, i + l) else best) (255, 255)

/-- The loop of `appendTo6` over the groups, from the `i`-th on. -/
def appendGroups (groups : List Nat) (run : Nat × Nat) : Nat → Nat → GoString
  | 0, _ => []
  | fuel + 1, i =>
    if 8 ≤ i then []
    else if i = run.1 then
      0x3A :: 0x3A :: (if 8 ≤ run.2 then []
        else hexText (groups.getD run.2 0) ++ appendGroups groups run fuel (run.2 + 1))
    else
      (if 0 < i then [0x3A] else []) ++ hexText (groups.getD i 0) ++
        appendGroups groups run fuel (i + 1)

/-- `Addr.string6`. -/
def string6 (ip : List UInt8) : GoString :=
  appendGroups (addrGroups ip) (zeroRun (addrGroups ip)) 8 0

/-- `IP.String` of an address of four bytes or of sixteen. -/
def ipString (ip : List UInt8) : GoString :=
  if ip.length = 4 then string4 ip
  else
    match to4 ip with
    | some v4 => string4 v4
    | none => string6 ip

example : ipString [203, 0, 113, 0] = lit "203.0.113.0" := by decide
example : ipString (0x20 :: 0x01 :: 0x0D :: 0xB8 :: List.replicate 12 0) = lit "2001:db8::" := by
  decide

/-! ## Digits -/

theorem hexDigit_unhex {n : Nat} (hn : n < 16) : isHex (hexDigit n) ∧ unhex (hexDigit n) = n := by
  revert n
  decide

theorem hexText_isHex {x : Nat} (hx : x < 0x10000) : ∀ c ∈ hexText x, isHex c := by
  have h3 : isHex (hexDigit (x / 0x1000)) := (hexDigit_unhex (by omega)).1
  have h2 : isHex (hexDigit (x / 0x100 % 16)) := (hexDigit_unhex (by omega)).1
  have h1 : isHex (hexDigit (x / 0x10 % 16)) := (hexDigit_unhex (by omega)).1
  have h0 : isHex (hexDigit (x % 16)) := (hexDigit_unhex (by omega)).1
  unfold hexText
  intro c hc
  split_ifs at hc <;> simp at hc <;> grind

theorem hexText_length (x : Nat) : 0 < (hexText x).length ∧ (hexText x).length ≤ 4 := by
  unfold hexText
  split_ifs <;> simp

/-- The digits of a group give the group. -/
theorem hexadecimal_hexText {x : Nat} (hx : x < 0x10000) : hexadecimal (hexText x) = x := by
  have h3 : unhex (hexDigit (x / 0x1000)) = x / 0x1000 := (hexDigit_unhex (by omega)).2
  have h2 : unhex (hexDigit (x / 0x100 % 16)) = x / 0x100 % 16 := (hexDigit_unhex (by omega)).2
  have h1 : unhex (hexDigit (x / 0x10 % 16)) = x / 0x10 % 16 := (hexDigit_unhex (by omega)).2
  have h0 : unhex (hexDigit (x % 16)) = x % 16 := (hexDigit_unhex (by omega)).2
  unfold hexText hexadecimal
  split_ifs <;> simp only [List.nil_append, List.cons_append, List.foldl_cons, List.foldl_nil,
    h3, h2, h1, h0] <;> omega

/-- An octet is read back. -/
theorem parseOctet_decimalText (a : UInt8) :
    parseOctet (decimalText a.toNat) = some a ∧ (0x2E : UInt8) ∉ decimalText a.toNat := by
  have hall : ∀ n < 256, parseOctet (decimalText n) = some (UInt8.ofNat n) ∧
      (0x2E : UInt8) ∉ decimalText n := by decide +kernel
  have ha := hall a.toNat a.toNat_lt
  rw [UInt8.ofNat_toNat] at ha
  exact ha

/-! ## Dotted addresses -/

/-- Dotted octets are read back. -/
theorem parseIPv4Fields_string4 (a b c d : UInt8) :
    parseIPv4Fields (string4 [a, b, c, d]) = some [a, b, c, d] := by
  have hfields : split 0x2E (string4 [a, b, c, d]) =
      [decimalText a.toNat, decimalText b.toNat, decimalText c.toNat, decimalText d.toNat] := by
    rw [string4, split_append, split_append, split_append,
      split_of_not_mem (parseOctet_decimalText a).2, split_of_not_mem (parseOctet_decimalText b).2,
      split_of_not_mem (parseOctet_decimalText c).2, split_of_not_mem (parseOctet_decimalText d).2]
    rfl
  unfold parseIPv4Fields
  simp only [hfields, List.length_cons, List.length_nil, Nat.zero_add, Nat.reduceAdd, if_true,
    List.mapM_cons, List.mapM_nil, (parseOctet_decimalText _).1]
  rfl

/-- The first separator of dotted octets is a dot. -/
theorem find_string4 (a b c d : UInt8) :
    (string4 [a, b, c, d]).find? (fun b => b == 0x2E || b == 0x3A || b == 0x25) = some 0x2E := by
  have hall : ∀ n < 256,
      (decimalText n).find? (fun b => b == 0x2E || b == 0x3A || b == 0x25) = none := by
    decide +kernel
  rw [string4, List.find?_append, hall a.toNat a.toNat_lt]
  rfl

theorem parseIP_string4 (a b c d : UInt8) :
    parseIP (string4 [a, b, c, d]) = some (v4InV6 ++ [a, b, c, d]) := by
  have haddr : parseAddr (string4 [a, b, c, d]) =
      some { bytes := v4InV6 ++ [a, b, c, d], is4 := true, zone := [] } := by
    rw [parseAddr, find_string4]
    show (parseIPv4Fields (string4 [a, b, c, d])).map _ = _
    rw [parseIPv4Fields_string4]
    rfl
  rw [parseIP, haddr]
  rfl

/-! ## Groups -/

section

variable {fuel x : Nat} {out : GoString} {ellipsis : Option Nat}

theorem span_hexText (hx : x < 0x10000) (rest : GoString) (hrest : ∀ c ∈ rest.head?, isHex c = false) :
    (hexText x ++ rest).takeWhile isHex = hexText x ∧
      (hexText x ++ rest).dropWhile isHex = rest := by
  have hall := hexText_isHex hx
  have hstop : rest.takeWhile isHex = [] ∧ rest.dropWhile isHex = rest := by
    cases rest with
    | nil => exact ⟨rfl, rfl⟩
    | cons c rest =>
      have hc := hrest c rfl
      exact ⟨List.takeWhile_cons_of_neg (by simp [hc]), List.dropWhile_cons_of_neg (by simp [hc])⟩
  rw [List.takeWhile_append_of_pos hall, List.dropWhile_append_of_pos hall, hstop.1, hstop.2,
    List.append_nil]
  exact ⟨rfl, rfl⟩

/-- The bytes of a group that was printed. -/
theorem group_hexText (high low : UInt8) :
    parseGroups.group (hexText (high.toNat * 256 + low.toNat)) = [high, low] := by
  have hhigh := high.toNat_lt
  have hlow := low.toNat_lt
  rw [parseGroups.group, hexadecimal_hexText (by omega)]
  have h1 : (high.toNat * 256 + low.toNat) / 256 = high.toNat := by omega
  have h2 : (high.toNat * 256 + low.toNat) % 256 = low.toNat := by omega
  rw [h1, h2, UInt8.ofNat_toNat, UInt8.ofNat_toNat]

/-- A group and a colon before another group. -/
theorem parseGroups_group {c : UInt8} {rest : GoString} (hx : x < 0x10000) (hc : isHex c) :
    parseGroups (fuel + 1) (hexText x ++ 0x3A :: c :: rest) out ellipsis =
      parseGroups fuel (c :: rest) (out ++ parseGroups.group (hexText x)) ellipsis := by
  have hspan := span_hexText hx (0x3A :: c :: rest) (by simp; decide)
  have hlength := hexText_length x
  have hcolon : c ≠ 0x3A := by
    rintro rfl
    exact absurd hc (by decide)
  rw [parseGroups]
  simp only [hspan.1, hspan.2]
  rw [if_neg (not_or.mpr ⟨List.ne_nil_of_length_pos hlength.1, Nat.not_lt.mpr hlength.2⟩)]
  split <;> simp_all

/-- A group before a double colon at the end. -/
theorem parseGroups_end (hx : x < 0x10000) :
    parseGroups (fuel + 1) (hexText x ++ [0x3A, 0x3A]) out none =
      some (out ++ parseGroups.group (hexText x),
        some (out ++ parseGroups.group (hexText x)).length, []) := by
  have hspan := span_hexText hx [0x3A, 0x3A] (by simp; decide)
  have hlength := hexText_length x
  rw [parseGroups]
  simp only [hspan.1, hspan.2]
  rw [if_neg (not_or.mpr ⟨List.ne_nil_of_length_pos hlength.1, Nat.not_lt.mpr hlength.2⟩)]
  simp

end

/-! ## Networks -/

/-- The longest run of zeros of a network is the one at its end. -/
theorem zeroRun_network (x y z : Nat) :
    zeroRun [x, y, z, 0, 0, 0, 0, 0] =
      (if z ≠ 0 then 3 else if y ≠ 0 then 2 else if x ≠ 0 then 1 else 0, 8) := by
  have hrange : List.range 8 = [0, 1, 2, 3, 4, 5, 6, 7] := by decide
  rw [zeroRun, hrange]
  by_cases hx : x = 0 <;> by_cases hy : y = 0 <;> by_cases hz : z = 0 <;>
    simp [hx, hy, hz]

/-- A network is printed as its groups up to the last that is not zero, and a double colon. -/
theorem appendGroups_network (x y z : Nat) :
    appendGroups [x, y, z, 0, 0, 0, 0, 0] (zeroRun [x, y, z, 0, 0, 0, 0, 0]) 8 0 =
      if z ≠ 0 then hexText x ++ 0x3A :: (hexText y ++ 0x3A :: (hexText z ++ [0x3A, 0x3A]))
      else if y ≠ 0 then hexText x ++ 0x3A :: (hexText y ++ [0x3A, 0x3A])
      else if x ≠ 0 then hexText x ++ [0x3A, 0x3A]
      else [0x3A, 0x3A] := by
  rw [zeroRun_network]
  split_ifs <;> simp [appendGroups]

/-- Groups that end in a double colon are an address with zeros at its end. -/
theorem parseIP_groups {x : Nat} {rest : GoString} (out : GoString) (hx : x < 0x10000)
    (hrest : ∀ c ∈ rest, isHex c ∨ c = 0x3A)
    (hgroups : parseGroups 8 (hexText x ++ 0x3A :: rest) [] none = some (out, some out.length, []))
    (hlength : out.length < 16) :
    parseIP (hexText x ++ 0x3A :: rest) = some (out ++ List.replicate (16 - out.length) 0) := by
  have hfirst : (hexText x ++ 0x3A :: rest).find?
      (fun b => b == 0x2E || b == 0x3A || b == 0x25) = some 0x3A := by
    have hnone : (hexText x).find? (fun b => b == 0x2E || b == 0x3A || b == 0x25) = none := by
      apply List.find?_eq_none.mpr
      intro c hc hsep
      have hhex := hexText_isHex hx c hc
      simp only [Bool.or_eq_true, beq_iff_eq] at hsep
      rcases hsep with (rfl | rfl) | rfl <;> exact absurd hhex (by decide)
    rw [List.find?_append, hnone]
    rfl
  have hzone : (0x25 : UInt8) ∉ hexText x ++ 0x3A :: rest := by
    intro hmem
    rcases List.mem_append.mp hmem with hmem | hmem
    · exact absurd (hexText_isHex hx _ hmem) (by decide)
    · rcases List.mem_cons.mp hmem with heq | hmem
      · exact absurd heq (by decide)
      · exact absurd (hrest _ hmem) (by decide)
  obtain ⟨c, digits, hdigits⟩ := List.exists_cons_of_length_pos (hexText_length x).1
  have hc : c ≠ 0x3A := by
    rintro rfl
    exact absurd (hexText_isHex hx 0x3A (hdigits ▸ List.mem_cons_self)) (by decide)
  have haddr : parseIPv6 (hexText x ++ 0x3A :: rest) =
      some { bytes := out ++ List.replicate (16 - out.length) 0, is4 := false, zone := [] } := by
    rw [hdigits, List.cons_append] at hzone hgroups ⊢
    generalize digits ++ 0x3A :: rest = tail at hzone hgroups ⊢
    unfold parseIPv6
    rw [if_neg hzone]
    simp [hc, hgroups, expandEllipsis, hlength]
  have hparse : parseAddr (hexText x ++ 0x3A :: rest) =
      some { bytes := out ++ List.replicate (16 - out.length) 0, is4 := false, zone := [] } := by
    rw [parseAddr, hfirst]
    exact haddr
  rw [parseIP, hparse]
  rfl

/-- A network is read back. -/
theorem parseIP_string6_network (a b c d e f : UInt8) :
    parseIP (string6 ([a, b, c, d, e, f] ++ List.replicate 10 0)) =
      some ([a, b, c, d, e, f] ++ List.replicate 10 0) := by
  have ha := a.toNat_lt
  have hb := b.toNat_lt
  have hc := c.toNat_lt
  have hd := d.toNat_lt
  have he := e.toNat_lt
  have hf := f.toNat_lt
  have hzero : ∀ high low : UInt8, high.toNat * 256 + low.toNat = 0 → high = 0 ∧ low = 0 := by
    intro high low h
    exact ⟨UInt8.toNat_inj.mp (by simp; omega), UInt8.toNat_inj.mp (by simp; omega)⟩
  have hgroups : addrGroups ([a, b, c, d, e, f] ++ List.replicate 10 0) =
      [a.toNat * 256 + b.toNat, c.toNat * 256 + d.toNat, e.toNat * 256 + f.toNat, 0, 0, 0, 0, 0] :=
    rfl
  have hhex : ∀ high low : UInt8, ∃ digit rest,
      hexText (high.toNat * 256 + low.toNat) = digit :: rest ∧ isHex digit := by
    intro high low
    have hhigh := high.toNat_lt
    have hlow := low.toNat_lt
    obtain ⟨digit, rest, heq⟩ :=
      List.exists_cons_of_length_pos (hexText_length (high.toNat * 256 + low.toNat)).1
    exact ⟨digit, rest, heq, hexText_isHex (by omega) digit (heq ▸ List.mem_cons_self)⟩
  have hmore : ∀ (high low : UInt8) (rest : GoString), (∀ c ∈ rest, isHex c ∨ c = 0x3A) →
      ∀ c ∈ hexText (high.toNat * 256 + low.toNat) ++ 0x3A :: rest, isHex c ∨ c = 0x3A := by
    intro high low rest hrest c hc
    have hhigh := high.toNat_lt
    have hlow := low.toNat_lt
    rcases List.mem_append.mp hc with hc | hc
    · exact .inl (hexText_isHex (by omega) c hc)
    · rcases List.mem_cons.mp hc with rfl | hc
      · exact .inr rfl
      · exact hrest c hc
  have hend : ∀ c ∈ [(0x3A : UInt8)], isHex c ∨ c = 0x3A :=
    fun c hc => .inr (List.mem_singleton.mp hc)
  obtain ⟨second, seconds, hsecond, hsecondHex⟩ := hhex c d
  obtain ⟨third, thirds, hthird, hthirdHex⟩ := hhex e f
  rw [string6, hgroups, appendGroups_network]
  split_ifs with hz hy hx
  · -- none of the three groups is left out
    rw [parseIP_groups [a, b, c, d, e, f] (by omega)]
    · rfl
    · exact hmore c d _ (hmore e f _ hend)
    · rw [hsecond, List.cons_append, parseGroups_group (by omega) hsecondHex, ← List.cons_append,
        ← hsecond, hthird, List.cons_append, parseGroups_group (by omega) hthirdHex,
        ← List.cons_append, ← hthird, parseGroups_end (by omega)]
      simp only [group_hexText]
      rfl
    · show 6 < 16
      omega
  · obtain ⟨rfl, rfl⟩ := hzero e f (not_not.mp hz)
    rw [parseIP_groups [a, b, c, d] (by omega)]
    · rfl
    · exact hmore c d _ hend
    · rw [hsecond, List.cons_append, parseGroups_group (by omega) hsecondHex, ← List.cons_append,
        ← hsecond, parseGroups_end (by omega)]
      simp only [group_hexText]
      rfl
    · show 4 < 16
      omega
  · obtain ⟨rfl, rfl⟩ := hzero e f (not_not.mp hz)
    obtain ⟨rfl, rfl⟩ := hzero c d (not_not.mp hy)
    rw [parseIP_groups [a, b] (by omega) hend]
    · rfl
    · rw [parseGroups_end (by omega)]
      simp only [group_hexText]
      rfl
    · show 2 < 16
      omega
  · obtain ⟨rfl, rfl⟩ := hzero e f (not_not.mp hz)
    obtain ⟨rfl, rfl⟩ := hzero c d (not_not.mp hy)
    obtain ⟨rfl, rfl⟩ := hzero a b (not_not.mp hx)
    decide

end Purels.Go
