import Mathlib.Data.List.Basic
import Mathlib.Tactic.Common

/-!
# Address prefixes

Addresses are lists of bytes, and a prefix is an address with the number of its leading
bits that count.

* `bitsOf`, `addressBits`: the bits, the most significant first.
* `Prefix.contains`, and how it is computed: byte by byte with `contains_cons`, a part of
  a byte with `contains_part`, behind a common front with `contains_append`.
* `Prefix.overlaps`: what two prefixes of one address do.
-/

namespace Purels.Lib

/-- A property of every byte, checked value by value. -/
@[elab_as_elim]
theorem forall_byte {motive : UInt8 → Prop} (b : UInt8)
    (h : ∀ n < 256, motive (UInt8.ofNat n)) : motive b := by
  have hb := h b.toNat b.toNat_lt_size
  rwa [UInt8.ofNat_toNat] at hb

/-! ## Bits -/

/-- The eight bits of a byte. -/
def bitsOf (b : UInt8) : List Bool := (List.range 8).map fun i => b.toNat.testBit (7 - i)

/-- The bits of an address. -/
def addressBits (ip : List UInt8) : List Bool := ip.flatMap bitsOf

theorem length_bitsOf (b : UInt8) : (bitsOf b).length = 8 := rfl

/-- A byte is its bits. -/
theorem bitsOf_inj {a b : UInt8} : bitsOf a = bitsOf b ↔ a = b := by
  have hvalue : ∀ c : UInt8, (bitsOf c).foldl (fun n bit => 2 * n + bit.toNat) 0 = c.toNat :=
    fun c => forall_byte c (by decide +kernel)
  constructor
  · intro h
    apply UInt8.toNat_inj.mp
    rw [← hvalue a, ← hvalue b, h]
  · rintro rfl
    rfl

theorem addressBits_cons (b : UInt8) (ip : List UInt8) :
    addressBits (b :: ip) = bitsOf b ++ addressBits ip := List.flatMap_cons

/-! ## Prefixes -/

structure Prefix where
  bytes : List UInt8
  length : Nat
  deriving DecidableEq

/-- The address begins as the prefix does. -/
def Prefix.contains (p : Prefix) (ip : List UInt8) : Prop :=
  (addressBits p.bytes).take p.length <+: addressBits ip

instance (p : Prefix) (ip : List UInt8) : Decidable (p.contains ip) :=
  inferInstanceAs (Decidable (_ <+: _))

namespace Prefix

theorem contains_zero (bytes ip : List UInt8) : contains ⟨bytes, 0⟩ ip := List.nil_prefix

/-- A whole byte is compared. -/
theorem contains_cons {a b : UInt8} {bytes ip : List UInt8} {n : Nat} :
    contains ⟨a :: bytes, n + 8⟩ (b :: ip) ↔ a = b ∧ contains ⟨bytes, n⟩ ip := by
  have htake : (addressBits (a :: bytes)).take (n + 8) =
      bitsOf a ++ (addressBits bytes).take n := by
    rw [addressBits_cons, List.take_append, length_bitsOf, Nat.add_sub_cancel,
      List.take_of_length_le (by rw [length_bitsOf]; omega)]
  unfold contains
  rw [htake, addressBits_cons, ← bitsOf_inj]
  constructor
  · rintro ⟨rest, hrest⟩
    rw [List.append_assoc] at hrest
    obtain ⟨hsame, htail⟩ := List.append_inj hrest (by rw [length_bitsOf, length_bitsOf])
    exact ⟨hsame, rest, htail⟩
  · rintro ⟨hsame, rest, htail⟩
    exact ⟨rest, by rw [List.append_assoc, htail, hsame]⟩

/-- A part of a byte is compared. -/
theorem contains_part {a b : UInt8} {bytes ip : List UInt8} {n : Nat} (hn : n ≤ 8) :
    contains ⟨a :: bytes, n⟩ (b :: ip) ↔ (bitsOf a).take n = (bitsOf b).take n := by
  have htake : ∀ (c : UInt8) (rest : List UInt8),
      (addressBits (c :: rest)).take n = (bitsOf c).take n := by
    intro c rest
    rw [addressBits_cons, List.take_append_of_le_length (by rw [length_bitsOf]; exact hn)]
  have hlength : ((bitsOf a).take n).length = n := by
    rw [List.length_take, length_bitsOf]
    omega
  unfold contains
  rw [htake, List.prefix_iff_eq_take, hlength, htake]

/-- A common front and what is behind it. -/
theorem contains_append {front bytes ip : List UInt8} {n : Nat} :
    contains ⟨front ++ bytes, n + 8 * front.length⟩ ip ↔
      front <+: ip ∧ contains ⟨bytes, n⟩ (ip.drop front.length) := by
  induction front generalizing ip with
  | nil => simp
  | cons a front ih =>
    cases ip with
    | nil =>
      refine iff_of_false (fun h => ?_) fun h => absurd h.1 (by simp)
      -- the first byte of the front has no byte to agree with
      have hnil := List.prefix_nil.mp h
      rw [List.take_eq_nil_iff, List.cons_append, addressBits_cons, List.length_cons] at hnil
      rcases hnil with hzero | hnil
      · have hzero : n + 8 * (front.length + 1) = 0 := hzero
        omega
      · have hlength := congrArg List.length hnil
        rw [List.length_append, length_bitsOf, List.length_nil] at hlength
        omega
    | cons b ip =>
      have hsum : n + 8 * (a :: front).length = n + 8 * front.length + 8 := by
        rw [List.length_cons]
        omega
      rw [hsum, List.cons_append, contains_cons, ih, List.cons_prefix_cons, List.length_cons,
        List.drop_succ_cons, and_assoc]

/-- The first bits of one prefix are the first bits of the other. -/
def overlaps (p q : Prefix) : Prop :=
  (addressBits p.bytes).take p.length <+: (addressBits q.bytes).take q.length ∨
    (addressBits q.bytes).take q.length <+: (addressBits p.bytes).take p.length

instance (p q : Prefix) : Decidable (p.overlaps q) := inferInstanceAs (Decidable (_ ∨ _))

/-- Prefixes of one address overlap. -/
theorem overlaps_of_contains {p q : Prefix} {ip : List UInt8} (hp : p.contains ip)
    (hq : q.contains ip) : p.overlaps q :=
  List.prefix_or_prefix_of_prefix hp hq

end Prefix

end Purels.Lib
