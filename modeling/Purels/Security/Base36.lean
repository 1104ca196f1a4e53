import Purels.Lib.Numerals
import Purels.Security.Links

/-!
# Sequential codes

`EncodeBase36` writes the digits of a sequence value from the end of a buffer of thirteen bytes.

* `encodeLoop`, `EncodeBase36Buffer`: the loop with its buffer, its index and its panics.
* `encodeLoop_eq`: what it leaves in the buffer is the numeral of the value.
* `EncodeBase36Buffer_eq`: for every positive value it is the code that the service takes.
* `EncodeBase36_numeral`: reading the code gives back the value, so codes are unique.
-/

namespace Purels.Security

open Go

/-! ## The loop and its buffer -/

/-- `alphabet[i]`; an index outside of the alphabet is a panic. -/
def alphabetByte (i : Int64) : Option UInt8 :=
  if 0 ≤ i then alphabet[i.toInt.toNat]? else none

/-- The loop of `EncodeBase36`, with `i` bytes of the buffer still free.  A write in front of the
buffer is a panic. -/
def encodeLoop : Nat → Vector UInt8 13 → Int64 → Option GoString
  | 0, buf, value => if 0 < value then none else some buf.toList
  | i + 1, buf, value =>
    if 0 < value then
      (alphabetByte (value % 36)).bind fun c => encodeLoop i (buf.setIfInBounds i c) (value / 36)
    else some (buf.toList.drop (i + 1))

/-- `EncodeBase36`, as the program computes it. -/
def EncodeBase36Buffer (value : Int64) : Option GoString :=
  if value ≤ 0 then some (lit "0") else encodeLoop 13 (Vector.replicate 13 0) value

/-! ## Digits -/

/-- A digit of a code, by its value. -/
def base36Digit (d : Nat) : UInt8 := alphabet.getD d 0

/-- The value of a lower-case digit. -/
def base36Value (c : UInt8) : Option Nat :=
  if 0x30 ≤ c ∧ c ≤ 0x39 then some (c.toNat - 0x30)
  else if 0x61 ≤ c ∧ c ≤ 0x7A then some (c.toNat - 0x61 + 10)
  else none

/-- A lower-case numeral of base 36; no digit at all is none. -/
def readBase36 (code : GoString) : Option Nat :=
  if code = [] then none else Lib.readNumeral base36Value 36 code

/-- Each of the first 36 bytes of the alphabet is read as its own index. -/
theorem base36Value_digit : ∀ d < 36, base36Value (base36Digit d) = some d := by decide

theorem alphabet_prefix : ∀ d < 36, alphabet[d]? = some (base36Digit d) := by decide

theorem base36Digit_ne_zero {d : Nat} (hd : d < 36) (hne : d ≠ 0) : base36Digit d ≠ 0x30 := by
  intro heq
  have hvalue := base36Value_digit d hd
  rw [heq] at hvalue
  exact hne (Option.some.inj hvalue).symm

/-- The digits of a positive value, most significant first. -/
def base36Numeral (n : Nat) : GoString := Lib.numeral base36Digit 36 n

theorem base36Numeral_step {n : Nat} (hn : 0 < n) :
    base36Numeral n = base36Numeral (n / 36) ++ [base36Digit (n % 36)] :=
  Lib.numeral_step (by decide) hn

theorem base36Digits_eq (room n : Nat) (digits : GoString) (h : n < 36 ^ room) :
    base36Digits room n digits = base36Numeral n ++ digits := by
  induction room generalizing n digits with
  | zero =>
    obtain rfl : n = 0 := by omega
    rfl
  | succ room ih =>
    have hdiv : n / 36 < 36 ^ room := by
      rw [Nat.pow_succ] at h
      exact Nat.div_lt_of_lt_mul (by omega)
    rw [base36Digits]
    split_ifs with hzero
    · rw [hzero]
      rfl
    · rw [ih _ _ hdiv, base36Numeral_step (Nat.pos_of_ne_zero hzero), List.append_assoc,
        List.singleton_append, base36Digit]

/-! ## The arithmetic of the loop -/

section

variable {value : Int64}

theorem pos_iff_toInt : 0 < value ↔ 0 < value.toInt := Int64.lt_iff_toInt_lt

/-- Dividing a value that is not negative divides the number. -/
theorem toNat_div (h : 0 ≤ value.toInt) :
    (value / 36).toInt.toNat = value.toInt.toNat / 36 ∧ 0 ≤ (value / 36).toInt := by
  have hmin : value ≠ Int64.minValue := by
    rintro rfl
    exact absurd h (by decide)
  have h36 : (36 : Int64).toInt = 36 := by decide
  rw [Int64.toInt_div_of_ne_left _ _ hmin, h36, Int.tdiv_eq_ediv_of_nonneg h]
  omega

theorem alphabetByte_mod (h : 0 ≤ value.toInt) :
    alphabetByte (value % 36) = some (base36Digit (value.toInt.toNat % 36)) := by
  have h36 : (36 : Int64).toInt = 36 := by decide
  have hmod : (value % 36).toInt = value.toInt % 36 := by
    rw [Int64.toInt_mod, h36, Int.tmod_eq_emod_of_nonneg h]
  have hle : (0 : Int64) ≤ value % 36 := by
    rw [Int64.le_iff_toInt_le, hmod]
    exact Int.emod_nonneg _ (by decide)
  have hindex : (value % 36).toInt.toNat = value.toInt.toNat % 36 := by omega
  rw [alphabetByte, if_pos hle, hindex]
  exact alphabet_prefix _ (Nat.mod_lt _ (by decide))

/-- The loop ends before the buffer does, and leaves the numeral in front of what the buffer
held. -/
theorem encodeLoop_eq (i : Nat) (hi : i ≤ 13) (buf : Vector UInt8 13) (h : 0 ≤ value.toInt)
    (hroom : value.toInt.toNat < 36 ^ i) :
    encodeLoop i buf value = some (base36Numeral value.toInt.toNat ++ buf.toList.drop i) := by
  induction i generalizing value buf with
  | zero =>
    have hzero : value.toInt = 0 := by omega
    have hpos : ¬ 0 < value := by
      rw [pos_iff_toInt]
      omega
    rw [encodeLoop, if_neg hpos, hzero]
    rfl
  | succ i ih =>
    rw [encodeLoop]
    split_ifs with hpos
    · obtain ⟨hdiv, hnonneg⟩ := toNat_div h
      have hvalue : 0 < value.toInt.toNat := by
        rw [pos_iff_toInt] at hpos
        omega
      have hless : (value / 36).toInt.toNat < 36 ^ i := by
        rw [hdiv]
        rw [Nat.pow_succ] at hroom
        exact Nat.div_lt_of_lt_mul (by omega)
      have hwritten : (buf.setIfInBounds i (base36Digit (value.toInt.toNat % 36))).toList.drop i =
          base36Digit (value.toInt.toNat % 36) :: buf.toList.drop (i + 1) := by
        have hlength : i < buf.toList.length := by
          rw [Vector.length_toList]
          omega
        rw [Vector.toList_setIfInBounds, List.drop_set, if_neg (Nat.lt_irrefl i), Nat.sub_self,
          List.drop_eq_getElem_cons hlength, List.set_cons_zero]
      rw [alphabetByte_mod h, Option.bind_some, ih (by omega) _ hnonneg hless, hdiv, hwritten,
        base36Numeral_step hvalue, List.append_assoc, List.singleton_append]
    · have hzero : value.toInt = 0 := by
        rw [pos_iff_toInt] at hpos
        omega
      rw [hzero]
      rfl

end

/-! ## Codes -/

/-- A positive value is one that thirteen digits hold. -/
theorem toNat_lt (value : Int64) : value.toInt.toNat < 36 ^ 13 := by
  have hlt := value.toInt_lt
  omega

theorem EncodeBase36_eq {n : Nat} (hn : 0 < n) (hlt : n < 36 ^ 13) :
    EncodeBase36 n = base36Numeral n := by
  rw [EncodeBase36, if_neg (by omega), base36Digits_eq 13 n [] hlt, List.append_nil]

/-- The buffer is large enough for every value, and holds the code that the service takes. -/
theorem EncodeBase36Buffer_eq (value : Int64) :
    EncodeBase36Buffer value = some (EncodeBase36 value.toInt.toNat) := by
  have hle : value ≤ 0 ↔ value.toInt ≤ 0 := Int64.le_iff_toInt_le
  unfold EncodeBase36Buffer
  split_ifs with hzero
  · have hnone : value.toInt.toNat = 0 := by
      rw [hle] at hzero
      omega
    rw [hnone]
    rfl
  · have hvalue : 0 < value.toInt := by
      rw [hle] at hzero
      omega
    rw [encodeLoop_eq 13 le_rfl _ (by omega) (toNat_lt value),
      EncodeBase36_eq (by omega) (toNat_lt value)]
    simp

theorem head?_base36Numeral {n : Nat} (hn : 0 < n) :
    ∃ d < 36, d ≠ 0 ∧ (base36Numeral n).head? = some (base36Digit d) :=
  Lib.head?_numeral (by decide) hn

theorem readBase36_numeral {n : Nat} (hn : 0 < n) : readBase36 (base36Numeral n) = some n := by
  obtain ⟨d, -, -, hhead⟩ := head?_base36Numeral hn
  have hne : base36Numeral n ≠ [] := by
    intro heq
    rw [heq] at hhead
    cases hhead
  rw [readBase36, if_neg hne]
  exact Lib.readNumeral_numeral (by decide) base36Value_digit n

/-- Codes of sequence values that the column can hold differ. -/
theorem EncodeBase36_inj {m n : Nat} (hm : 0 < m) (hmlt : m < 36 ^ 13) (hn : 0 < n)
    (hnlt : n < 36 ^ 13) (h : EncodeBase36 m = EncodeBase36 n) : m = n := by
  rw [EncodeBase36_eq hm hmlt, EncodeBase36_eq hn hnlt] at h
  have hread := readBase36_numeral hm
  rw [h, readBase36_numeral hn] at hread
  exact (Option.some.inj hread).symm

/-- A positive `int64` is written without leaving the buffer, its code has thirteen digits at most
and no leading zero, reading the code as a lower-case numeral of base 36 gives back the value, and
no other positive value has this code. -/
theorem EncodeBase36_unique (value : Int64) (h : 0 < value) :
    ∃ code, EncodeBase36Buffer value = some code ∧ code.length ≤ 13 ∧ code.head? ≠ some 0x30 ∧
      readBase36 code = some value.toInt.toNat ∧
      ∀ other : Int64, 0 < other → EncodeBase36Buffer other = some code → other = value := by
  have hvalue : 0 < value.toInt.toNat := by
    rw [pos_iff_toInt] at h
    omega
  have hlt := toNat_lt value
  refine ⟨EncodeBase36 value.toInt.toNat, EncodeBase36Buffer_eq value, ?_, ?_, ?_, ?_⟩
  · rw [EncodeBase36_eq hvalue hlt]
    exact (Lib.length_numeral_le (by decide)).mpr hlt
  · rw [EncodeBase36_eq hvalue hlt]
    obtain ⟨d, hd, hne, hhead⟩ := head?_base36Numeral hvalue
    rw [hhead]
    exact fun heq => base36Digit_ne_zero hd hne (Option.some.inj heq)
  · rw [EncodeBase36_eq hvalue hlt]
    exact readBase36_numeral hvalue
  · intro other hother hcode
    rw [EncodeBase36Buffer_eq] at hcode
    rw [pos_iff_toInt] at h hother
    have hsame := EncodeBase36_inj (by omega) (toNat_lt other) hvalue hlt (Option.some.inj hcode)
    apply Int64.toInt_inj.mp
    omega

example : EncodeBase36Buffer Int64.maxValue = some (lit "1y2p0ij32e8e7") := by decide

/-- The greatest sequence value fills the whole buffer. -/
theorem EncodeBase36_max :
    ∃ code, EncodeBase36Buffer Int64.maxValue = some code ∧ code.length ≤ 13 ∧
      code.head? ≠ some 0x30 ∧ readBase36 code = some Int64.maxValue.toInt.toNat ∧
      ∀ other : Int64, 0 < other → EncodeBase36Buffer other = some code →
        other = Int64.maxValue :=
  EncodeBase36_unique Int64.maxValue (by decide)

end Purels.Security
