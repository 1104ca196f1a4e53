import Mathlib.Algebra.Ring.Int.Defs
import Mathlib.Algebra.Ring.Nat
import Mathlib.Data.List.DropRight
import Mathlib.Data.List.Infix
import Mathlib.Tactic.Common

/-!
# Go strings

A Go string is a sequence of bytes, and most of the strings a server reads
(headers, query values, percent-decoded host names) need not be valid UTF-8.
`GoString` keeps the bytes, and the functions of the `strings` package that
work on runes decode them the way `for range` does: an invalid byte is one
rune, `U+FFFD`.

There are five groups.

* UTF-8: `decodeRune`, `encodeRune` and `runes`.  `runes_bytes` says that the
  decoded chunks are the string, `runes_encodeRunes` that encoding is undone.
* The Unicode tables: `Unicode` holds the case mappings as data with the laws
  the later proofs use.
* Case: `toLower`, `equalFold`.
* White space and cutting: `trimSpace`, `cut`, `trimByte`.
* Digits: `decimal`, `atoi`.
-/

namespace Purels.Go

/-- A Go string: its bytes. -/
abbrev GoString := List UInt8

/-- The bytes of a string literal. -/
def lit (s : String) : GoString := s.toUTF8.data.toList

/-! ## UTF-8 -/

/-- `utf8.RuneError`, what an invalid byte decodes to. -/
def runeError : Nat := 0xFFFD

/-- Unicode scalar values. -/
def ValidRune (c : Nat) : Prop := c < 0xD800 ∨ 0xE000 ≤ c ∧ c < 0x110000

instance (c : Nat) : Decidable (ValidRune c) := by unfold ValidRune; infer_instance

/-- A continuation byte. -/
def isCont (b : UInt8) : Bool := 0x80 ≤ b.toNat && b.toNat ≤ 0xBF

/-- The two bytes are a two-byte sequence. -/
def isTwo (b0 b1 : UInt8) : Bool :=
  0xC2 ≤ b0.toNat && b0.toNat ≤ 0xDF && isCont b1

/-- The three bytes are a three-byte sequence: no overlong form and no
surrogate. -/
def isThree (b0 b1 b2 : UInt8) : Bool :=
  0xE0 ≤ b0.toNat && b0.toNat ≤ 0xEF && isCont b1 && isCont b2 &&
    (b0.toNat != 0xE0 || 0xA0 ≤ b1.toNat) && (b0.toNat != 0xED || b1.toNat ≤ 0x9F)

/-- The four bytes are a four-byte sequence: no overlong form and nothing
above `U+10FFFF`. -/
def isFour (b0 b1 b2 b3 : UInt8) : Bool :=
  0xF0 ≤ b0.toNat && b0.toNat ≤ 0xF4 && isCont b1 && isCont b2 && isCont b3 &&
    (b0.toNat != 0xF0 || 0x90 ≤ b1.toNat) && (b0.toNat != 0xF4 || b1.toNat ≤ 0x8F)

/-- The code points of the three sequence lengths. -/
def codeTwo (b0 b1 : UInt8) : Nat := (b0.toNat - 0xC0) * 64 + (b1.toNat - 0x80)

def codeThree (b0 b1 b2 : UInt8) : Nat :=
  (b0.toNat - 0xE0) * 4096 + (b1.toNat - 0x80) * 64 + (b2.toNat - 0x80)

def codeFour (b0 b1 b2 b3 : UInt8) : Nat :=
  (b0.toNat - 0xF0) * 262144 + (b1.toNat - 0x80) * 4096 + (b2.toNat - 0x80) * 64 +
    (b3.toNat - 0x80)

/-- `utf8.DecodeRuneInString`: the first rune and its width. -/
def decodeRune : GoString → Nat × Nat
  | [] => (runeError, 0)
  | b0 :: rest =>
    if b0.toNat < 0x80 then (b0.toNat, 1)
    else
      match rest with
      | [] => (runeError, 1)
      | b1 :: rest =>
        if isTwo b0 b1 then (codeTwo b0 b1, 2)
        else
          match rest with
          | [] => (runeError, 1)
          | b2 :: rest =>
            if isThree b0 b1 b2 then (codeThree b0 b1 b2, 3)
            else
              match rest with
              | [] => (runeError, 1)
              | b3 :: _ =>
                if isFour b0 b1 b2 b3 then (codeFour b0 b1 b2 b3, 4) else (runeError, 1)

/-- `utf8.AppendRune` on an empty buffer. -/
def encodeRune (c : Nat) : GoString :=
  if c < 0x80 then [UInt8.ofNat c]
  else if c < 0x800 then [UInt8.ofNat (0xC0 + c / 64), UInt8.ofNat (0x80 + c % 64)]
  else if 0xD800 ≤ c ∧ c < 0xE000 ∨ 0x110000 ≤ c then [0xEF, 0xBF, 0xBD]
  else if c < 0x10000 then
    [UInt8.ofNat (0xE0 + c / 4096), UInt8.ofNat (0x80 + c / 64 % 64),
      UInt8.ofNat (0x80 + c % 64)]
  else
    [UInt8.ofNat (0xF0 + c / 262144), UInt8.ofNat (0x80 + c / 4096 % 64),
      UInt8.ofNat (0x80 + c / 64 % 64), UInt8.ofNat (0x80 + c % 64)]

/-- A rune together with the bytes it was read from. -/
structure Rune where
  code : Nat
  bytes : GoString
  deriving DecidableEq

private def runesAux : Nat → GoString → List Rune
  | 0, _ => []
  | _, [] => []
  | fuel + 1, b :: rest =>
    let w := (decodeRune (b :: rest)).2
    ⟨(decodeRune (b :: rest)).1, (b :: rest).take w⟩ :: runesAux fuel ((b :: rest).drop w)

/-- `for range s`: the runes of a string, in order. -/
def runes (s : GoString) : List Rune := runesAux s.length s

/-- The bytes of a list of chunks. -/
def ofRunes (rs : List Rune) : GoString := rs.flatMap Rune.bytes

@[simp] theorem ofRunes_nil : ofRunes [] = [] := rfl

@[simp] theorem ofRunes_cons (r : Rune) (rs : List Rune) :
    ofRunes (r :: rs) = r.bytes ++ ofRunes rs := rfl

theorem ofRunes_append (rs ts : List Rune) :
    ofRunes (rs ++ ts) = ofRunes rs ++ ofRunes ts := by
  simp [ofRunes]

/-- The first rune of a non-empty string is an ASCII byte, a two-, three- or
four-byte sequence, or an invalid byte. -/
theorem decodeRune_cases (b0 : UInt8) (rest : GoString) :
    (b0.toNat < 0x80 ∧ decodeRune (b0 :: rest) = (b0.toNat, 1)) ∨
    (∃ b1 t, rest = b1 :: t ∧ isTwo b0 b1 ∧
      decodeRune (b0 :: rest) = (codeTwo b0 b1, 2)) ∨
    (∃ b1 b2 t, rest = b1 :: b2 :: t ∧ isThree b0 b1 b2 ∧
      decodeRune (b0 :: rest) = (codeThree b0 b1 b2, 3)) ∨
    (∃ b1 b2 b3 t, rest = b1 :: b2 :: b3 :: t ∧ isFour b0 b1 b2 b3 ∧
      decodeRune (b0 :: rest) = (codeFour b0 b1 b2 b3, 4)) ∨
    decodeRune (b0 :: rest) = (runeError, 1) := by
  rcases rest with _ | ⟨b1, _ | ⟨b2, _ | ⟨b3, rest⟩⟩⟩ <;>
    simp only [decodeRune] <;> split_ifs <;> simp_all

theorem codeTwo_valid {b0 b1 : UInt8} (h : isTwo b0 b1) : ValidRune (codeTwo b0 b1) := by
  simp only [isTwo, isCont, Bool.and_eq_true, decide_eq_true_eq] at h
  unfold ValidRune codeTwo
  omega

theorem codeThree_valid {b0 b1 b2 : UInt8} (h : isThree b0 b1 b2) :
    ValidRune (codeThree b0 b1 b2) := by
  simp only [isThree, isCont, Bool.and_eq_true, Bool.or_eq_true, bne_iff_ne,
    decide_eq_true_eq] at h
  unfold ValidRune codeThree
  omega

theorem codeFour_valid {b0 b1 b2 b3 : UInt8} (h : isFour b0 b1 b2 b3) :
    ValidRune (codeFour b0 b1 b2 b3) := by
  simp only [isFour, isCont, Bool.and_eq_true, Bool.or_eq_true, bne_iff_ne,
    decide_eq_true_eq] at h
  unfold ValidRune codeFour
  omega

/-- A non-empty string has a first rune of one to four bytes. -/
theorem decodeRune_width (b : UInt8) (rest : GoString) :
    1 ≤ (decodeRune (b :: rest)).2 ∧
      (decodeRune (b :: rest)).2 ≤ (b :: rest).length := by
  rcases decodeRune_cases b rest with ⟨_, h⟩ | ⟨b1, t, rfl, _, h⟩ |
    ⟨b1, b2, t, rfl, _, h⟩ | ⟨b1, b2, b3, t, rfl, _, h⟩ | h <;> rw [h] <;> simp

/-- What is decoded is a scalar value. -/
theorem decodeRune_valid (b : UInt8) (rest : GoString) :
    ValidRune (decodeRune (b :: rest)).1 := by
  rcases decodeRune_cases b rest with ⟨hb, h⟩ | ⟨b1, t, rfl, hs, h⟩ |
    ⟨b1, b2, t, rfl, hs, h⟩ | ⟨b1, b2, b3, t, rfl, hs, h⟩ | h <;> rw [h]
  · exact Or.inl (by show b.toNat < 0xD800; omega)
  · exact codeTwo_valid hs
  · exact codeThree_valid hs
  · exact codeFour_valid hs
  · exact Or.inr (by decide)

/-- Cutting the end off a string does not change a first rune that is still
whole. -/
theorem decodeRune_take (s : GoString) {n : Nat} (h1 : 1 ≤ n)
    (hn : (decodeRune s).2 ≤ n) : decodeRune (s.take n) = decodeRune s := by
  obtain ⟨n, rfl⟩ : ∃ k, n = k + 1 := ⟨n - 1, by omega⟩
  rcases s with _ | ⟨b0, rest⟩
  · simp
  rw [List.take_succ_cons]
  rcases n with _ | _ | _ | _ | n
  all_goals
    rcases rest with _ | ⟨b1, _ | ⟨b2, _ | ⟨b3, rest⟩⟩⟩ <;>
      simp only [decodeRune, List.take_nil, List.take_succ_cons, List.take_zero] at hn ⊢ <;>
      split_ifs at hn ⊢ <;> first | (exfalso; simp at hn; done) | rfl

/-- Encoding a scalar value and decoding it gives the value back. -/
theorem decodeRune_encodeRune {c : Nat} (hc : ValidRune c) (s : GoString) :
    decodeRune (encodeRune c ++ s) = (c, (encodeRune c).length) := by
  unfold ValidRune at hc
  have hofNat : ∀ n, n < 256 → (UInt8.ofNat n).toNat = n := fun n hn => by
    simpa using Nat.mod_eq_of_lt hn
  unfold encodeRune
  split_ifs with h1 h2 h3 h4
  · have e0 := hofNat c (by omega)
    simp [decodeRune, e0, h1]
  · have e0 := hofNat (0xC0 + c / 64) (by omega)
    have e1 := hofNat (0x80 + c % 64) (by omega)
    have htwo : isTwo (UInt8.ofNat (0xC0 + c / 64)) (UInt8.ofNat (0x80 + c % 64)) := by
      simp only [isTwo, isCont, e0, e1, Bool.and_eq_true, decide_eq_true_eq]
      omega
    have hcode : codeTwo (UInt8.ofNat (0xC0 + c / 64)) (UInt8.ofNat (0x80 + c % 64)) = c := by
      unfold codeTwo
      rw [e0, e1]
      omega
    have hlead : ¬ (UInt8.ofNat (0xC0 + c / 64)).toNat < 0x80 := by omega
    simp only [decodeRune, List.cons_append, if_neg hlead, if_pos htwo, hcode]
    rfl
  · omega
  · have e0 := hofNat (0xE0 + c / 4096) (by omega)
    have e1 := hofNat (0x80 + c / 64 % 64) (by omega)
    have e2 := hofNat (0x80 + c % 64) (by omega)
    have htwo : ¬ isTwo (UInt8.ofNat (0xE0 + c / 4096)) (UInt8.ofNat (0x80 + c / 64 % 64)) := by
      simp only [isTwo, isCont, e0, e1, Bool.and_eq_true, decide_eq_true_eq]
      omega
    have hthree : isThree (UInt8.ofNat (0xE0 + c / 4096)) (UInt8.ofNat (0x80 + c / 64 % 64))
        (UInt8.ofNat (0x80 + c % 64)) := by
      simp only [isThree, isCont, e0, e1, e2, Bool.and_eq_true, Bool.or_eq_true, bne_iff_ne,
        decide_eq_true_eq]
      omega
    have hcode : codeThree (UInt8.ofNat (0xE0 + c / 4096)) (UInt8.ofNat (0x80 + c / 64 % 64))
        (UInt8.ofNat (0x80 + c % 64)) = c := by
      unfold codeThree
      rw [e0, e1, e2]
      omega
    have hlead : ¬ (UInt8.ofNat (0xE0 + c / 4096)).toNat < 0x80 := by omega
    simp only [decodeRune, List.cons_append, if_neg hlead, if_neg htwo, if_pos hthree, hcode]
    rfl
  · have e0 := hofNat (0xF0 + c / 262144) (by omega)
    have e1 := hofNat (0x80 + c / 4096 % 64) (by omega)
    have e2 := hofNat (0x80 + c / 64 % 64) (by omega)
    have e3 := hofNat (0x80 + c % 64) (by omega)
    have htwo : ¬ isTwo (UInt8.ofNat (0xF0 + c / 262144))
        (UInt8.ofNat (0x80 + c / 4096 % 64)) := by
      simp only [isTwo, isCont, e0, e1, Bool.and_eq_true, decide_eq_true_eq]
      omega
    have hthree : ¬ isThree (UInt8.ofNat (0xF0 + c / 262144))
        (UInt8.ofNat (0x80 + c / 4096 % 64)) (UInt8.ofNat (0x80 + c / 64 % 64)) := by
      simp only [isThree, isCont, e0, e1, e2, Bool.and_eq_true, Bool.or_eq_true, bne_iff_ne,
        decide_eq_true_eq]
      omega
    have hfour : isFour (UInt8.ofNat (0xF0 + c / 262144)) (UInt8.ofNat (0x80 + c / 4096 % 64))
        (UInt8.ofNat (0x80 + c / 64 % 64)) (UInt8.ofNat (0x80 + c % 64)) := by
      simp only [isFour, isCont, e0, e1, e2, e3, Bool.and_eq_true, Bool.or_eq_true, bne_iff_ne,
        decide_eq_true_eq]
      omega
    have hcode : codeFour (UInt8.ofNat (0xF0 + c / 262144)) (UInt8.ofNat (0x80 + c / 4096 % 64))
        (UInt8.ofNat (0x80 + c / 64 % 64)) (UInt8.ofNat (0x80 + c % 64)) = c := by
      unfold codeFour
      rw [e0, e1, e2, e3]
      omega
    have hlead : ¬ (UInt8.ofNat (0xF0 + c / 262144)).toNat < 0x80 := by omega
    simp only [decodeRune, List.cons_append, if_neg hlead, if_neg htwo, if_neg hthree,
      if_pos hfour, hcode]
    rfl

theorem encodeRune_ne_nil (c : Nat) : encodeRune c ≠ [] := by
  unfold encodeRune
  split_ifs <;> simp

/-! ### The runes of a string -/

@[simp] theorem runes_nil : runes [] = [] := rfl

/-- The fuel of `runesAux` does not matter once it reaches the length. -/
private theorem runesAux_fuel {fuel fuel' : Nat} {s : GoString} (h : s.length ≤ fuel)
    (h' : s.length ≤ fuel') : runesAux fuel s = runesAux fuel' s := by
  induction fuel generalizing fuel' s with
  | zero =>
    obtain rfl : s = [] := List.length_eq_zero_iff.1 (by omega)
    cases fuel' <;> rfl
  | succ fuel ih =>
    rcases s with _ | ⟨b, rest⟩
    · cases fuel' <;> rfl
    obtain ⟨fuel', rfl⟩ : ∃ k, fuel' = k + 1 := ⟨fuel' - 1, by simp at h'; omega⟩
    have hw := decodeRune_width b rest
    simp only [List.length_cons] at h h' hw
    simp only [runesAux]
    have hdrop : ((b :: rest).drop (decodeRune (b :: rest)).2).length ≤ min fuel fuel' := by
      simp only [List.length_drop, List.length_cons]
      omega
    rw [ih (show _ ≤ fuel by omega) (show _ ≤ fuel' by omega)]

/-- The runes of a non-empty string: the first one, and those of what is left. -/
theorem runes_cons (b : UInt8) (rest : GoString) :
    runes (b :: rest) =
      ⟨(decodeRune (b :: rest)).1, (b :: rest).take (decodeRune (b :: rest)).2⟩ ::
        runes ((b :: rest).drop (decodeRune (b :: rest)).2) := by
  have hw := decodeRune_width b rest
  simp only [List.length_cons] at hw
  rw [runes, List.length_cons, runesAux, runes]
  congr 1
  refine runesAux_fuel ?_ le_rfl
  simp only [List.length_drop, List.length_cons]
  omega

/-- The chunks that a string decodes to are the string. -/
@[simp] theorem ofRunes_runes (s : GoString) : ofRunes (runes s) = s := by
  obtain ⟨n, hn⟩ : ∃ n, s.length ≤ n := ⟨_, le_rfl⟩
  induction n generalizing s with
  | zero =>
    obtain rfl : s = [] := List.length_eq_zero_iff.1 (by omega)
    rfl
  | succ n ih =>
    rcases s with _ | ⟨b, rest⟩
    · rfl
    have hw := decodeRune_width b rest
    simp only [List.length_cons] at hn hw
    rw [runes_cons, ofRunes_cons, ih, List.take_append_drop]
    simp only [List.length_drop, List.length_cons]
    omega

/-- Every decoded rune is a scalar value. -/
theorem runes_valid {s : GoString} {r : Rune} (h : r ∈ runes s) : ValidRune r.code := by
  obtain ⟨n, hn⟩ : ∃ n, s.length ≤ n := ⟨_, le_rfl⟩
  induction n generalizing s with
  | zero =>
    obtain rfl : s = [] := List.length_eq_zero_iff.1 (by omega)
    simp at h
  | succ n ih =>
    rcases s with _ | ⟨b, rest⟩
    · simp at h
    have hw := decodeRune_width b rest
    simp only [List.length_cons] at hn hw
    rw [runes_cons, List.mem_cons] at h
    rcases h with rfl | h
    · exact decodeRune_valid b rest
    · refine ih h ?_
      simp only [List.length_drop, List.length_cons]
      omega

/-- A string has no more runes than bytes. -/
theorem length_runes_le (s : GoString) : (runes s).length ≤ s.length := by
  obtain ⟨n, hn⟩ : ∃ n, s.length ≤ n := ⟨_, le_rfl⟩
  induction n generalizing s with
  | zero =>
    obtain rfl : s = [] := List.length_eq_zero_iff.1 (by omega)
    simp [runes, runesAux]
  | succ n ih =>
    rcases s with _ | ⟨b, rest⟩
    · simp [runes, runesAux]
    have hw := decodeRune_width b rest
    have hrest := ih ((b :: rest).drop (decodeRune (b :: rest)).2) (by
      simp only [List.length_drop, List.length_cons] at hn ⊢
      omega)
    rw [runes_cons]
    simp only [List.length_drop, List.length_cons] at hrest hw ⊢
    omega

/-- The first rune of an encoded value is that value. -/
theorem runes_encodeRune_append {c : Nat} (hc : ValidRune c) (s : GoString) :
    runes (encodeRune c ++ s) = ⟨c, encodeRune c⟩ :: runes s := by
  have hdec := decodeRune_encodeRune hc s
  obtain ⟨b, t, hbt⟩ : ∃ b t, encodeRune c = b :: t :=
    List.exists_cons_of_ne_nil (encodeRune_ne_nil c)
  rw [hbt] at hdec ⊢
  rw [List.cons_append] at hdec ⊢
  rw [runes_cons, hdec]
  simp

/-- Encoding scalar values and decoding them gives the values back. -/
theorem runes_encodeRunes {cs : List Nat} (h : ∀ c ∈ cs, ValidRune c) :
    runes (cs.flatMap encodeRune) = cs.map fun c => ⟨c, encodeRune c⟩ := by
  induction cs with
  | nil => rfl
  | cons c cs ih =>
    simp only [List.mem_cons, forall_eq_or_imp] at h
    rw [List.flatMap_cons, runes_encodeRune_append h.1, ih h.2, List.map_cons]

/-- The chunks at the end of a string are the chunks of a string. -/
theorem runes_ofRunes_end {s : GoString} {rs : List Rune} (h : rs <:+ runes s) :
    runes (ofRunes rs) = rs := by
  obtain ⟨n, hn⟩ : ∃ n, s.length ≤ n := ⟨_, le_rfl⟩
  induction n generalizing s with
  | zero =>
    obtain rfl : s = [] := List.length_eq_zero_iff.1 (by omega)
    obtain rfl : rs = [] := by simpa using h
    rfl
  | succ n ih =>
    rcases s with _ | ⟨b, rest⟩
    · obtain rfl : rs = [] := by simpa using h
      rfl
    have hw := decodeRune_width b rest
    simp only [List.length_cons] at hn hw
    have hcons := runes_cons b rest
    rw [hcons] at h
    rcases List.suffix_cons_iff.1 h with rfl | h
    · rw [← hcons, ofRunes_runes]
    · refine ih h ?_
      simp only [List.length_drop, List.length_cons]
      omega

/-- The chunks at the start of a string are the chunks of a string. -/
theorem runes_ofRunes_start {s : GoString} {rs : List Rune} (h : rs <+: runes s) :
    runes (ofRunes rs) = rs := by
  induction rs generalizing s with
  | nil => rfl
  | cons r rs ih =>
    rcases s with _ | ⟨b, rest⟩
    · simp at h
    obtain ⟨hw1, hw2⟩ := decodeRune_width b rest
    rw [runes_cons, List.cons_prefix_cons] at h
    obtain ⟨rfl, h⟩ := h
    have hrest := ih h
    -- the shorter string is a start of the whole one that keeps the first rune
    obtain ⟨tail, htail⟩ : ofRunes rs <+: (b :: rest).drop (decodeRune (b :: rest)).2 := by
      obtain ⟨t, ht⟩ := h
      refine ⟨ofRunes t, ?_⟩
      rw [← ofRunes_append, ht, ofRunes_runes]
    have hshort : (b :: rest).take (decodeRune (b :: rest)).2 ++ ofRunes rs =
        (b :: rest).take ((decodeRune (b :: rest)).2 + (ofRunes rs).length) := by
      rw [List.take_add, ← htail, List.take_left]
    have hdec := decodeRune_take (b :: rest)
      (n := (decodeRune (b :: rest)).2 + (ofRunes rs).length) (by omega) (by omega)
    rw [ofRunes_cons, hshort]
    obtain ⟨k, hk⟩ : ∃ k, (decodeRune (b :: rest)).2 + (ofRunes rs).length = k + 1 :=
      ⟨_, (Nat.succ_pred_eq_of_pos (by omega)).symm⟩
    rw [hk, List.take_succ_cons] at hdec hshort ⊢
    rw [runes_cons, hdec, ← hshort]
    have hlen : ((b :: rest).take (decodeRune (b :: rest)).2).length =
        (decodeRune (b :: rest)).2 := by
      rw [List.length_take]
      omega
    rw [List.take_left' hlen, List.drop_left' hlen, hrest]

/-- The chunks in the middle of a string are the chunks of a string. -/
theorem runes_ofRunes_middle {s : GoString} {rs : List Rune} (h : rs <:+: runes s) :
    runes (ofRunes rs) = rs := by
  obtain ⟨before, after, h⟩ := h
  have hsuffix : runes (ofRunes (rs ++ after)) = rs ++ after :=
    runes_ofRunes_end (s := s) ⟨before, by rw [← List.append_assoc, h]⟩
  exact runes_ofRunes_start (s := ofRunes (rs ++ after)) ⟨after, hsuffix.symm⟩

/-! ## The Unicode tables -/

/-- `unicode.IsSpace`: the `White_Space` property. -/
def isSpace (c : Nat) : Bool :=
  (0x09 ≤ c && c ≤ 0x0D) || c == 0x20 || c == 0x85 || c == 0xA0 || c == 0x1680 ||
    (0x2000 ≤ c && c ≤ 0x200A) || c == 0x2028 || c == 0x2029 || c == 0x202F ||
    c == 0x205F || c == 0x3000

/-- Lower case within ASCII. -/
def asciiLower (c : Nat) : Nat := if 0x41 ≤ c ∧ c ≤ 0x5A then c + 0x20 else c

/-- Upper case within ASCII. -/
def asciiUpper (c : Nat) : Nat := if 0x61 ≤ c ∧ c ≤ 0x7A then c - 0x20 else c

/-- The tables of the `unicode` package that the code reads: case mappings, the
representative of a simple case-folding orbit, and the letter and number
categories.  Above ASCII they are data, so a development over an arbitrary
`Unicode` holds for the table of any Unicode version.  The laws are the ones
every version has. -/
structure Unicode where
  /-- `unicode.ToLower`. -/
  lower : Nat → Nat
  /-- `unicode.ToUpper`. -/
  upper : Nat → Nat
  /-- The least rune of the orbit that `unicode.SimpleFold` cycles through. -/
  fold : Nat → Nat
  /-- `unicode.IsLetter`. -/
  isLetter : Nat → Bool
  /-- `unicode.IsNumber`. -/
  isNumber : Nat → Bool
  lower_ascii : ∀ c, c < 0x80 → lower c = asciiLower c
  upper_ascii : ∀ c, c < 0x80 → upper c = asciiUpper c
  lower_valid : ∀ c, ValidRune c → ValidRune (lower c)
  lower_idem : ∀ c, lower (lower c) = lower c
  lower_space : ∀ c, isSpace (lower c) = isSpace c
  fold_ascii : ∀ c, c < 0x80 → fold c = asciiUpper c

/-- The table that knows no letters outside ASCII. -/
def Unicode.ascii : Unicode where
  lower := asciiLower
  upper := asciiUpper
  fold := asciiUpper
  isLetter c := (0x41 ≤ c && c ≤ 0x5A) || (0x61 ≤ c && c ≤ 0x7A)
  isNumber c := 0x30 ≤ c && c ≤ 0x39
  lower_ascii _ _ := rfl
  upper_ascii _ _ := rfl
  lower_valid c h := by
    unfold asciiLower
    split_ifs
    · exact Or.inl (by omega)
    · exact h
  lower_idem c := by
    unfold asciiLower
    split_ifs <;> omega
  lower_space c := by
    unfold asciiLower
    split_ifs with h
    · have : ∀ d, 0x41 ≤ d → d ≤ 0x7A → isSpace d = false := by decide
      rw [this c (by omega) (by omega), this (c + 0x20) (by omega) (by omega)]
    · rfl
  fold_ascii _ _ := rfl

/-- Letters and numbers are not white space, and within ASCII they are the letters and the
digits. -/
structure Unicode.Separates (u : Unicode) : Prop where
  letter_space : ∀ c, u.isLetter c → isSpace c = false
  number_space : ∀ c, u.isNumber c → isSpace c = false
  letter_ascii : ∀ c, c < 0x80 → u.isLetter c → 0x41 ≤ c ∧ c ≤ 0x5A ∨ 0x61 ≤ c ∧ c ≤ 0x7A
  number_ascii : ∀ c, c < 0x80 → u.isNumber c → 0x30 ≤ c ∧ c ≤ 0x39

theorem Unicode.ascii_separates : Unicode.ascii.Separates where
  letter_space c h := by
    simp only [Unicode.ascii, Bool.or_eq_true, Bool.and_eq_true, decide_eq_true_eq] at h
    simp only [isSpace, Bool.or_eq_false_iff, Bool.and_eq_false_iff, decide_eq_false_iff_not,
      beq_eq_false_iff_ne]
    omega
  number_space c h := by
    simp only [Unicode.ascii, Bool.and_eq_true, decide_eq_true_eq] at h
    simp only [isSpace, Bool.or_eq_false_iff, Bool.and_eq_false_iff, decide_eq_false_iff_not,
      beq_eq_false_iff_ne]
    omega
  letter_ascii c _ h := by
    simpa only [Unicode.ascii, Bool.or_eq_true, Bool.and_eq_true, decide_eq_true_eq] using h
  number_ascii c _ h := by
    simpa only [Unicode.ascii, Bool.and_eq_true, decide_eq_true_eq] using h

/-! ## Case -/

variable (u : Unicode)

/-- `strings.ToLower`. -/
def toLower (s : GoString) : GoString :=
  (runes s).flatMap fun r => encodeRune (u.lower r.code)

/-- `strings.ToUpper`. -/
def toUpper (s : GoString) : GoString :=
  (runes s).flatMap fun r => encodeRune (u.upper r.code)

/-- `strings.EqualFold`: equality under simple case folding. -/
def equalFold (s t : GoString) : Bool :=
  (runes s).map (fun r => u.fold r.code) == (runes t).map (fun r => u.fold r.code)

/-- Lower-casing maps the runes one by one. -/
theorem runes_toLower (s : GoString) :
    runes (toLower u s) =
      (runes s).map fun r => ⟨u.lower r.code, encodeRune (u.lower r.code)⟩ := by
  have h : toLower u s = ((runes s).map fun r => u.lower r.code).flatMap encodeRune := by
    rw [toLower, List.flatMap_map]
  rw [h, runes_encodeRunes, List.map_map]
  · rfl
  · intro c hc
    obtain ⟨r, hr, rfl⟩ := List.mem_map.1 hc
    exact u.lower_valid _ (runes_valid hr)

/-- Lower-casing twice is lower-casing once. -/
@[simp] theorem toLower_toLower (s : GoString) : toLower u (toLower u s) = toLower u s := by
  rw [toLower, runes_toLower, List.flatMap_map]
  simp only [u.lower_idem]
  rfl

/-- An ASCII byte is a rune of its own. -/
theorem runes_ascii_cons {b : UInt8} (hb : b.toNat < 0x80) (s : GoString) :
    runes (b :: s) = ⟨b.toNat, [b]⟩ :: runes s := by
  have hdec : decodeRune (b :: s) = (b.toNat, 1) := by
    unfold decodeRune
    simp only [if_pos hb]
  rw [runes_cons, hdec]
  rfl

/-- A first rune of ASCII is the first byte. -/
theorem ascii_of_decodeRune {b : UInt8} {s : GoString} (h : (decodeRune (b :: s)).1 < 0x80) :
    b.toNat < 0x80 := by
  rcases decodeRune_cases b s with ⟨hb, -⟩ | ⟨b1, t, rfl, htwo, hdec⟩ |
    ⟨b1, b2, t, rfl, hthree, hdec⟩ | ⟨b1, b2, b3, t, rfl, hfour, hdec⟩ | hdec
  · exact hb
  · simp only [isTwo, isCont, Bool.and_eq_true, decide_eq_true_eq] at htwo
    have hcode : codeTwo b b1 < 0x80 := by
      rw [hdec] at h
      exact h
    unfold codeTwo at hcode
    omega
  · simp only [isThree, isCont, Bool.and_eq_true, Bool.or_eq_true, bne_iff_ne,
      decide_eq_true_eq] at hthree
    have hcode : codeThree b b1 b2 < 0x80 := by
      rw [hdec] at h
      exact h
    unfold codeThree at hcode
    omega
  · simp only [isFour, isCont, Bool.and_eq_true, Bool.or_eq_true, bne_iff_ne,
      decide_eq_true_eq] at hfour
    have hcode : codeFour b b1 b2 b3 < 0x80 := by
      rw [hdec] at h
      exact h
    unfold codeFour at hcode
    omega
  · rw [hdec] at h
    exact absurd h (by decide)

/-- The runes of a string, as what a regular expression reads. -/
def runeCodes (s : GoString) : List Nat := (runes s).map Rune.code

@[simp] theorem runeCodes_nil : runeCodes [] = [] := rfl

/-- Runes of ASCII are the bytes of the string. -/
theorem ascii_of_runeCodes {s : GoString} (h : ∀ c ∈ runeCodes s, c < 0x80) :
    (∀ b ∈ s, b.toNat < 0x80) ∧ runeCodes s = s.map UInt8.toNat := by
  induction s with
  | nil => exact ⟨List.forall_mem_nil _, rfl⟩
  | cons b s ih =>
    have hb : b.toNat < 0x80 := by
      apply ascii_of_decodeRune (s := s)
      apply h
      rw [runeCodes, runes_cons]
      exact List.mem_cons_self
    have hcodes : runeCodes (b :: s) = b.toNat :: runeCodes s := by
      rw [runeCodes, runes_ascii_cons hb]
      rfl
    rw [hcodes] at h
    obtain ⟨hrest, hmap⟩ := ih fun c hc => h c (List.mem_cons_of_mem _ hc)
    refine ⟨List.forall_mem_cons.mpr ⟨hb, hrest⟩, ?_⟩
    rw [hcodes, hmap]
    rfl

/-- The runes of ASCII are its bytes. -/
theorem runes_of_ascii {s : GoString} (h : ∀ b ∈ s, b.toNat < 0x80) :
    runes s = s.map fun b => ⟨b.toNat, [b]⟩ := by
  induction s with
  | nil => rfl
  | cons b s ih =>
    rw [runes_ascii_cons (h b List.mem_cons_self), List.map_cons,
      ih fun c hc => h c (List.mem_cons_of_mem b hc)]

/-- Bytes of ASCII are the runes of the string. -/
theorem runeCodes_of_ascii {s : GoString} (h : ∀ b ∈ s, b.toNat < 0x80) :
    runeCodes s = s.map UInt8.toNat := by
  induction s with
  | nil => rfl
  | cons b s ih =>
    have hrest := ih fun c hc => h c (List.mem_cons_of_mem b hc)
    rw [runeCodes] at hrest ⊢
    rw [runes_ascii_cons (h b List.mem_cons_self), List.map_cons, hrest]
    rfl

/-- A sequence of bytes is decoded the same with an ASCII character after it. -/
theorem decodeRune_append {c : UInt8} (hc : c.toNat < 0x80) (b : UInt8) (s t : GoString) :
    decodeRune (b :: s ++ c :: t) = decodeRune (b :: s) := by
  have hcont : isCont c = false := by
    unfold isCont
    rw [Bool.and_eq_false_iff, decide_eq_false_iff_not]
    exact Or.inl (by omega)
  rcases s with _ | ⟨b1, _ | ⟨b2, _ | ⟨b3, s⟩⟩⟩
  · rcases t with _ | ⟨c1, _ | ⟨c2, t⟩⟩ <;>
      simp [decodeRune, isTwo, isThree, isFour, hcont]
  · rcases t with _ | ⟨c1, t⟩ <;> simp [decodeRune, isThree, isFour, hcont]
  · simp [decodeRune, isFour, hcont]
  · rfl

/-- A string is decoded up to an ASCII byte, and then from it. -/
theorem runes_append_ascii {c : UInt8} (hc : c.toNat < 0x80) (s t : GoString) :
    runes (s ++ c :: t) = runes s ++ runes (c :: t) := by
  obtain ⟨n, hn⟩ : ∃ n, s.length ≤ n := ⟨_, le_rfl⟩
  induction n generalizing s with
  | zero =>
    obtain rfl : s = [] := List.length_eq_zero_iff.1 (by omega)
    rfl
  | succ n ih =>
    rcases s with _ | ⟨b, rest⟩
    · rfl
    obtain ⟨hw1, hw2⟩ := decodeRune_width b rest
    have hdrop : ((b :: rest).drop (decodeRune (b :: rest)).2).length ≤ n := by
      rw [List.length_drop]
      omega
    have hsplit := decodeRune_append hc b rest t
    rw [List.cons_append] at hsplit ⊢
    rw [runes_cons, runes_cons, hsplit, ← List.cons_append, List.take_append_of_le_length hw2,
      List.drop_append_of_le_length hw2, ih _ hdrop, List.cons_append]

/-- An ASCII byte of a string is one of its runes. -/
theorem mem_runeCodes_of_mem {b : UInt8} {s : GoString} (hb : b.toNat < 0x80) (hmem : b ∈ s) :
    b.toNat ∈ runeCodes s := by
  obtain ⟨before, after, rfl⟩ := List.append_of_mem hmem
  rw [runeCodes, runes_append_ascii hb, runes_ascii_cons hb, List.map_append]
  exact List.mem_append_right _ List.mem_cons_self

/-- A rune of ASCII is a byte of the string. -/
theorem mem_of_mem_runeCodes {b : UInt8} {s : GoString} (hb : b.toNat < 0x80)
    (hmem : b.toNat ∈ runeCodes s) : b ∈ s := by
  obtain ⟨n, hn⟩ : ∃ n, s.length ≤ n := ⟨_, le_rfl⟩
  induction n generalizing s with
  | zero =>
    obtain rfl : s = [] := List.length_eq_zero_iff.1 (by omega)
    cases hmem
  | succ n ih =>
    cases s with
    | nil => cases hmem
    | cons c rest =>
      rw [runeCodes, runes_cons, List.map_cons, List.mem_cons] at hmem
      have hwidth := (decodeRune_width c rest).1
      rcases hmem with hfirst | hlater
      · have hcode : b.toNat = (decodeRune (c :: rest)).1 := hfirst
        have hc : c.toNat < 0x80 := by
          apply ascii_of_decodeRune (s := rest)
          rw [← hcode]
          exact hb
        have hdec : (decodeRune (c :: rest)).1 = c.toNat := by
          unfold decodeRune
          simp only [if_pos hc]
        rw [UInt8.toNat_inj.mp (hcode.trans hdec)]
        exact List.mem_cons_self
      · refine List.mem_of_mem_drop (ih hlater ?_)
        rw [List.length_drop]
        omega

/-- Lower-casing ASCII bytes is lower-casing each. -/
theorem toLower_ascii {s : GoString} (h : ∀ b ∈ s, b.toNat < 0x80) :
    toLower u s = s.map fun b => UInt8.ofNat (asciiLower b.toNat) := by
  induction s with
  | nil => rfl
  | cons b s ih =>
    have hb : b.toNat < 0x80 := h b (by simp)
    have hlow : asciiLower b.toNat < 0x80 := by
      unfold asciiLower
      split_ifs <;> omega
    have hrest := ih fun c hc => h c (by simp [hc])
    rw [toLower] at hrest ⊢
    rw [runes_ascii_cons hb, List.flatMap_cons, hrest, u.lower_ascii _ hb, encodeRune,
      if_pos hlow]
    rfl

/-- Upper-casing ASCII bytes is upper-casing each. -/
theorem toUpper_ascii {s : GoString} (h : ∀ b ∈ s, b.toNat < 0x80) :
    toUpper u s = s.map fun b => UInt8.ofNat (asciiUpper b.toNat) := by
  induction s with
  | nil => rfl
  | cons b s ih =>
    have hb : b.toNat < 0x80 := h b (by simp)
    have hupper : asciiUpper b.toNat < 0x80 := by
      unfold asciiUpper
      split_ifs <;> omega
    have hrest := ih fun c hc => h c (by simp [hc])
    rw [toUpper] at hrest ⊢
    rw [runes_ascii_cons hb, List.flatMap_cons, hrest, u.upper_ascii _ hb, encodeRune,
      if_pos hupper]
    rfl

/-! ## White space and cutting -/

/-- `strings.TrimSpace`. -/
def trimSpace (s : GoString) : GoString :=
  ofRunes (((runes s).dropWhile fun r => isSpace r.code).rdropWhile fun r => isSpace r.code)

/-- Trimming drops runes at the two ends only. -/
theorem runes_trimSpace (s : GoString) :
    runes (trimSpace s) =
      ((runes s).dropWhile fun r => isSpace r.code).rdropWhile fun r => isSpace r.code := by
  refine runes_ofRunes_middle (s := s) ?_
  exact (List.rdropWhile_prefix _ _).isInfix.trans (List.dropWhile_suffix _).isInfix

/-- Trimming ASCII drops bytes. -/
theorem trimSpace_ascii {s : GoString} (h : ∀ b ∈ s, b.toNat < 0x80) :
    trimSpace s =
      (s.dropWhile fun b => isSpace b.toNat).rdropWhile fun b => isSpace b.toNat := by
  have hbytes : ∀ t : GoString, ofRunes (t.map fun b => ⟨b.toNat, [b]⟩) = t := by
    intro t
    rw [ofRunes, List.flatMap_map]
    exact List.flatMap_singleton' t
  rw [trimSpace, runes_of_ascii h, List.dropWhile_map, List.rdropWhile, List.rdropWhile,
    ← List.map_reverse, List.dropWhile_map, ← List.map_reverse, hbytes]
  rfl

/-- A string whose first and last runes are not white space is left alone. -/
theorem trimSpace_eq_self {s : GoString}
    (hfirst : ∀ r ∈ (runes s).head?, isSpace r.code = false)
    (hlast : ∀ r ∈ (runes s).getLast?, isSpace r.code = false) : trimSpace s = s := by
  have h1 : ((runes s).dropWhile fun r => isSpace r.code) = runes s := by
    rw [List.dropWhile_eq_self_iff]
    intro hl
    have := hfirst _ (List.head?_eq_some_head (List.length_pos_iff.1 hl))
    simpa [List.head_eq_getElem] using this
  have h2 : ((runes s).rdropWhile fun r => isSpace r.code) = runes s := by
    rw [List.rdropWhile_eq_self_iff]
    intro hl
    have := hlast _ (List.getLast?_eq_some_getLast hl)
    simpa using this
  rw [trimSpace, h1, h2, ofRunes_runes]

/-- So is a string without white space. -/
theorem trimSpace_of_not_space {s : GoString} (h : ∀ c ∈ runeCodes s, isSpace c = false) :
    trimSpace s = s := by
  apply trimSpace_eq_self
  · intro r hr
    exact h r.code (List.mem_map_of_mem (List.mem_of_mem_head? hr))
  · intro r hr
    exact h r.code (List.mem_map_of_mem (List.mem_of_mem_getLast? hr))

/-- So is a string of printable bytes. -/
theorem trimSpace_printable {s : GoString} (h : ∀ b ∈ s, 0x20 < b.toNat ∧ b.toNat < 0x7F) :
    trimSpace s = s := by
  have hascii : ∀ b ∈ s, b.toNat < 0x80 := fun b hb => by
    have := (h b hb).2
    omega
  apply trimSpace_of_not_space
  intro c hc
  rw [runeCodes_of_ascii hascii] at hc
  obtain ⟨b, hb, rfl⟩ := List.mem_map.mp hc
  obtain ⟨hlow, hhigh⟩ := h b hb
  simp only [isSpace, Bool.or_eq_false_iff, Bool.and_eq_false_iff, decide_eq_false_iff_not,
    beq_eq_false_iff_ne]
  omega

/-- Trimming cuts at the two ends. -/
theorem trimSpace_infix (s : GoString) : trimSpace s <:+: s := by
  obtain ⟨before, after, hrunes⟩ : ((runes s).dropWhile fun r => isSpace r.code).rdropWhile
      (fun r => isSpace r.code) <:+: runes s :=
    (List.rdropWhile_prefix _ _).isInfix.trans (List.dropWhile_suffix _).isInfix
  refine ⟨ofRunes before, ofRunes after, ?_⟩
  rw [trimSpace, ← ofRunes_append, ← ofRunes_append, hrunes, ofRunes_runes]

/-- After trimming, the ends are not white space. -/
theorem trimSpace_head {s : GoString} {r : Rune} (h : r ∈ (runes (trimSpace s)).head?) :
    isSpace r.code = false := by
  rw [runes_trimSpace] at h
  set l := (runes s).dropWhile fun r => isSpace r.code with hl
  have hl0 : r ∈ l.head? := by
    obtain ⟨t, ht⟩ := List.rdropWhile_prefix (fun r => isSpace r.code) l
    rcases hx : l.rdropWhile fun r => isSpace r.code with _ | ⟨x, xs⟩
    · simp [hx] at h
    · rw [hx] at h ht
      rw [← ht]
      simpa using h
  rcases hx : l with _ | ⟨x, xs⟩
  · simp [hx] at hl0
  · rw [hx] at hl0
    obtain rfl : x = r := by simpa using hl0
    have := List.head_dropWhile_not (fun r : Rune => isSpace r.code) (l := runes s)
      (by rw [← hl, hx]; simp)
    simpa [← hl, hx] using this

theorem trimSpace_getLast {s : GoString} {r : Rune}
    (h : r ∈ (runes (trimSpace s)).getLast?) : isSpace r.code = false := by
  rw [runes_trimSpace] at h
  obtain ⟨hne, rfl⟩ := List.mem_getLast?_eq_getLast h
  simpa using List.rdropWhile_last_not _ _ hne

/-- Trimming twice is trimming once. -/
@[simp] theorem trimSpace_trimSpace (s : GoString) :
    trimSpace (trimSpace s) = trimSpace s :=
  trimSpace_eq_self (fun _ h => trimSpace_head h) (fun _ h => trimSpace_getLast h)

/-- Lower-casing makes no white space: a trimmed string stays trimmed. -/
@[simp] theorem trimSpace_toLower_trimSpace (s : GoString) :
    trimSpace (toLower u (trimSpace s)) = toLower u (trimSpace s) := by
  refine trimSpace_eq_self ?_ ?_
  · intro r hr
    rw [runes_toLower, List.head?_map, Option.mem_def, Option.map_eq_some_iff] at hr
    obtain ⟨x, hx, rfl⟩ := hr
    rw [u.lower_space]
    exact trimSpace_head hx
  · intro r hr
    rw [runes_toLower, List.getLast?_map, Option.mem_def, Option.map_eq_some_iff] at hr
    obtain ⟨x, hx, rfl⟩ := hr
    rw [u.lower_space]
    exact trimSpace_getLast hx

/-- `strings.Cut` at one byte: what is before the first `c` and what is after.
Without a `c` the whole string is before it. -/
def cut (c : UInt8) (s : GoString) : GoString × GoString :=
  (s.takeWhile (· != c), (s.dropWhile (· != c)).drop 1)

/-- Cut at the last `c`, as `strings.LastIndex` is used; `none` without one. -/
def cutLast (c : UInt8) (s : GoString) : Option (GoString × GoString) :=
  if c ∈ s then some ((s.rdropWhile (· != c)).dropLast, s.rtakeWhile (· != c)) else none

/-- `strings.Trim` with a cutset of one byte. -/
def trimByte (c : UInt8) (s : GoString) : GoString :=
  (s.dropWhile (· == c)).rdropWhile (· == c)

/-- `strings.TrimRight` with a cutset of one byte. -/
def trimRightByte (c : UInt8) (s : GoString) : GoString := s.rdropWhile (· == c)

/-- The bytes behind a text that ends in another one. -/
theorem trimRightByte_replicate {c : UInt8} {s : GoString} (h : s.getLast? ≠ some c) (n : Nat) :
    trimRightByte c (s ++ List.replicate n c) = s := by
  unfold trimRightByte
  induction n with
  | zero =>
    rw [List.replicate_zero, List.append_nil, List.rdropWhile_eq_self_iff]
    intro hne hlast
    rw [List.getLast?_eq_some_getLast hne] at h
    exact h (congrArg some (by simpa using hlast))
  | succ n ih =>
    rw [List.replicate_succ', ← List.append_assoc,
      List.rdropWhile_concat_pos _ _ _ (by simp)]
    exact ih
/-- `utf8.ValidString`: no byte decodes to the error rune on its own. -/
def validString (s : GoString) : Bool :=
  (runes s).all fun r => !(r.code == runeError && r.bytes.length == 1)

/-- `strings.Index`: where `sep` first occurs. -/
def index (sep : GoString) : GoString → Option Nat
  | [] => if sep = [] then some 0 else none
  | c :: s => if sep.isPrefixOf (c :: s) then some 0 else (index sep s).map (· + 1)

/-- `strings.ContainsAny`. -/
def containsAny (s chars : GoString) : Bool := s.any fun c => chars.contains c

/-- `strings.ReplaceAll` of one byte by the empty string. -/
def removeByte (c : UInt8) (s : GoString) : GoString := s.filter (· != c)

/-! ## Digits -/

def isDigit (b : UInt8) : Bool := 0x30 ≤ b.toNat && b.toNat ≤ 0x39

/-- `ishex`. -/
def isHex (b : UInt8) : Bool :=
  isDigit b || (0x61 ≤ b.toNat && b.toNat ≤ 0x66) || (0x41 ≤ b.toNat && b.toNat ≤ 0x46)

/-- `unhex`. -/
def unhex (b : UInt8) : Nat :=
  if isDigit b then b.toNat - 0x30
  else if 0x61 ≤ b.toNat then b.toNat - 0x61 + 10 else b.toNat - 0x41 + 10

/-- The value of a run of decimal digits. -/
def decimal (s : GoString) : Nat := s.foldl (fun n b => n * 10 + (b.toNat - 0x30)) 0

/-- The value of a run of hexadecimal digits. -/
def hexadecimal (s : GoString) : Nat := s.foldl (fun n b => n * 16 + unhex b) 0

/-- `strconv.Atoi`: an optional sign and decimal digits, within `int64`. -/
def atoi (s : GoString) : Option Int :=
  let (negative, digits) := match s with
    | 0x2B :: rest => (false, rest)
    | 0x2D :: rest => (true, rest)
    | _ => (false, s)
  if digits = [] ∨ !digits.all isDigit then none
  else
    let value : Int := if negative then -(decimal digits : Int) else decimal digits
    if -2 ^ 63 ≤ value ∧ value < 2 ^ 63 then some value else none

end Purels.Go
