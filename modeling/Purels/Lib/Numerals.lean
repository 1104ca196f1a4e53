import Mathlib.Data.Int.Log
import Mathlib.Data.List.TakeWhile
import Mathlib.Data.Nat.Digits.Lemmas
import Mathlib.Data.Rat.Floor

/-!
# Number literals and binary64

Texts of numbers as lists of character codes, and the rounding of a rational number to
binary64.

* `digitValue`, `readNat`: digits of a base up to sixteen.
* `NumberForm`: literals with a point and an exponent; `signed`, an optional sign.
* `numeral`, `readNumeral`: a number over any digits, most significant first, and back;
  `decimalText` in ASCII.
* `float64`: the nearest number of binary64, ties to even.
-/

namespace Purels.Lib

/-! ## Literals -/

/-- The value of a character as a digit. -/
def digitValue (c : ℕ) : Option ℕ :=
  if 0x30 ≤ c ∧ c ≤ 0x39 then some (c - 0x30)
  else if 0x61 ≤ c ∧ c ≤ 0x66 then some (c - 0x61 + 10)
  else if 0x41 ≤ c ∧ c ≤ 0x46 then some (c - 0x41 + 10)
  else none

def isDigitOf (base c : ℕ) : Bool := (digitValue c).any fun v => decide (v < base)

/-- The value of a run of digits. -/
def natOfDigits (base : ℕ) (s : List ℕ) : ℕ :=
  s.foldl (fun n c => n * base + (digitValue c).getD 0) 0

/-- One digit or more, and nothing else. -/
def readNat (base : ℕ) (s : List ℕ) : Option ℕ :=
  if s ≠ [] ∧ s.all (isDigitOf base) then some (natOfDigits base s) else none

/-- An optional sign, and what is read after it. -/
def signed {α : Type*} [Neg α] (read : List ℕ → Option α) : List ℕ → Option α
  | 0x2B :: s => read s
  | 0x2D :: s => (read s).map fun v => -v
  | s => read s

/-- Readers that agree on every end of a text agree with a sign before it. -/
theorem signed_congr {α : Type*} [Neg α] {read read' : List ℕ → Option α} {s : List ℕ}
    (h : ∀ t, t <:+ s → read t = read' t) : signed read s = signed read' s := by
  unfold signed
  split
  · exact h _ (List.suffix_cons _ _)
  · rw [h _ (List.suffix_cons _ _)]
  · exact h _ List.suffix_rfl

/-! ## Numerals over any digits -/

section Numerals

variable {α : Type*} {digit : ℕ → α} {value : α → Option ℕ} {base : ℕ}

/-- The digits of a number, most significant first, without leading zeros. -/
def numeral (digit : ℕ → α) (base n : ℕ) : List α := ((base.digits n).map digit).reverse

/-- Digits read from the left, after those that make `start`. -/
def readFrom (value : α → Option ℕ) (base start : ℕ) (s : List α) : Option ℕ :=
  s.foldlM (fun n c => (value c).map (n * base + ·)) start

/-- The number that a numeral stands for. -/
def readNumeral (value : α → Option ℕ) (base : ℕ) (s : List α) : Option ℕ :=
  readFrom value base 0 s

theorem readFrom_append (start : ℕ) (s t : List α) :
    readFrom value base start (s ++ t) =
      (readFrom value base start s).bind fun n => readFrom value base n t := by
  unfold readFrom
  rw [List.foldlM_append]
  rfl

theorem readFrom_singleton (start : ℕ) (c : α) :
    readFrom value base start [c] = (value c).map (start * base + ·) := by
  unfold readFrom
  rw [List.foldlM_cons]
  cases value c <;> rfl

theorem numeral_step (hbase : 1 < base) {n : ℕ} (hn : 0 < n) :
    numeral digit base n = numeral digit base (n / base) ++ [digit (n % base)] := by
  unfold numeral
  rw [Nat.digits_def' hbase hn, List.map_cons, List.reverse_cons]

/-- A numeral stands for the number that it was made of. -/
theorem readNumeral_numeral (hbase : 1 < base) (hdigit : ∀ d < base, value (digit d) = some d)
    (n : ℕ) : readNumeral value base (numeral digit base n) = some n := by
  induction n using Nat.strong_induction_on with
  | _ n ih =>
    rcases Nat.eq_zero_or_pos n with rfl | hn
    · simp [numeral, readNumeral, readFrom]
    · have hmod : n % base < base := Nat.mod_lt n (by omega)
      unfold readNumeral at ih ⊢
      rw [numeral_step hbase hn, readFrom_append, ih _ (Nat.div_lt_self hn hbase), Option.bind_some,
        readFrom_singleton, hdigit _ hmod, Option.map_some, Nat.div_add_mod']

theorem length_numeral_le (hbase : 1 < base) {n k : ℕ} :
    (numeral digit base n).length ≤ k ↔ n < base ^ k := by
  unfold numeral
  rw [List.length_reverse, List.length_map]
  exact Nat.digits_length_le_iff hbase n

/-- The first digit of a positive number is one of the digits other than zero. -/
theorem head?_numeral (hbase : 1 < base) {n : ℕ} (hn : 0 < n) :
    ∃ d < base, d ≠ 0 ∧ (numeral digit base n).head? = some (digit d) := by
  have hne : base.digits n ≠ [] := Nat.digits_ne_nil_iff_ne_zero.mpr (by omega)
  refine ⟨(base.digits n).getLast hne, Nat.digits_lt_base hbase (List.getLast_mem hne),
    Nat.getLast_digit_ne_zero base (by omega), ?_⟩
  unfold numeral
  rw [List.head?_reverse, List.getLast?_map, List.getLast?_eq_some_getLast hne, Option.map_some]

end Numerals

/-! ## Decimal texts -/

/-- A decimal digit in ASCII, by its value. -/
def decimalDigit (d : ℕ) : UInt8 := UInt8.ofNat (0x30 + d)

/-- The value of a decimal digit in ASCII. -/
def decimalValue (c : UInt8) : Option ℕ :=
  if 0x30 ≤ c ∧ c ≤ 0x39 then some (c.toNat - 0x30) else none

/-- A number in decimal. -/
def decimalText (n : ℕ) : List UInt8 := if n = 0 then [0x30] else numeral decimalDigit 10 n

theorem decimalValue_digit : ∀ d < 10, decimalValue (decimalDigit d) = some d := by decide

theorem decimalDigit_of_value {c : UInt8} {d : ℕ} (h : decimalValue c = some d) :
    d < 10 ∧ decimalDigit d = c := by
  unfold decimalValue at h
  split_ifs at h with hdigit
  obtain ⟨hlow, hhigh⟩ := hdigit
  rw [UInt8.le_iff_toNat_le] at hlow hhigh
  have hzero : (0x30 : UInt8).toNat = 0x30 := rfl
  have hnine : (0x39 : UInt8).toNat = 0x39 := rfl
  have hd : c.toNat - 0x30 = d := Option.some.inj h
  constructor
  · omega
  · apply UInt8.toNat_inj.mp
    rw [decimalDigit, UInt8.toNat_ofNat']
    omega

theorem readNumeral_decimal (n : ℕ) :
    readNumeral decimalValue 10 (numeral decimalDigit 10 n) = some n :=
  readNumeral_numeral (by decide) decimalValue_digit n

/-- A digit in ASCII is a digit of a literal. -/
theorem digitValue_of_decimalValue {c : UInt8} {d : ℕ} (h : decimalValue c = some d) :
    d < 10 ∧ digitValue c.toNat = some d := by
  obtain ⟨hd, rfl⟩ := decimalDigit_of_value h
  refine ⟨hd, ?_⟩
  have hall : ∀ d < 10, digitValue (decimalDigit d).toNat = some d := by decide
  exact hall d hd

/-- Digits that are read are the digits of a literal of the same value. -/
theorem natOfDigits_of_readFrom {s : List UInt8} {start n : ℕ}
    (h : readFrom decimalValue 10 start s = some n) :
    (∀ c ∈ s.map UInt8.toNat, isDigitOf 10 c) ∧
      (s.map UInt8.toNat).foldl (fun n c => n * 10 + (digitValue c).getD 0) start = n := by
  induction s generalizing start with
  | nil => exact ⟨List.forall_mem_nil _, Option.some.inj h⟩
  | cons c s ih =>
    have hstep : readFrom decimalValue 10 start (c :: s) =
        (readFrom decimalValue 10 start [c]).bind fun k => readFrom decimalValue 10 k s :=
      readFrom_append start [c] s
    rw [hstep, readFrom_singleton, Option.bind_eq_some_iff] at h
    obtain ⟨k, hk, hrest⟩ := h
    obtain ⟨d, hd, rfl⟩ := Option.map_eq_some_iff.mp hk
    obtain ⟨hlt, hvalue⟩ := digitValue_of_decimalValue hd
    obtain ⟨hdigits, hfold⟩ := ih hrest
    constructor
    · rw [List.map_cons, List.forall_mem_cons]
      refine ⟨?_, hdigits⟩
      rw [isDigitOf, hvalue]
      exact decide_eq_true hlt
    · rw [List.map_cons, List.foldl_cons, hvalue]
      exact hfold

/-- A number in decimal is a literal of that number. -/
theorem natOfDigits_decimalText (n : ℕ) :
    (∀ c ∈ (decimalText n).map UInt8.toNat, isDigitOf 10 c) ∧
      natOfDigits 10 ((decimalText n).map UInt8.toNat) = n := by
  unfold decimalText natOfDigits
  split
  · rename_i hzero
    rw [hzero]
    decide
  · exact natOfDigits_of_readFrom (readNumeral_decimal n)

theorem decimalText_ne_nil (n : ℕ) : decimalText n ≠ [] := by
  intro h
  have hread := (natOfDigits_decimalText n).2
  rw [h] at hread
  have hzero : 0 = n := hread
  rw [← hzero] at h
  exact absurd h (by decide)

/-- A form of literals: digits with a point before, among or after them, and an exponent. -/
structure NumberForm where
  base : ℕ
  /-- The letter before an exponent, in both cases. -/
  lowerMarker : ℕ
  upperMarker : ℕ
  /-- What the exponent is one of. -/
  radix : ℚ
  exponentRequired : Bool

namespace NumberForm

variable (form : NumberForm)

/-- The exponent at the end of a literal. -/
def readExponent : List ℕ → Option ℤ
  | [] => if form.exponentRequired then none else some 0
  | c :: s =>
    if c = form.lowerMarker ∨ c = form.upperMarker then
      signed (fun s => (readNat 10 s).map Int.ofNat) s
    else none

/-- The exact value of a literal without a sign. -/
def read (s : List ℕ) : Option ℚ :=
  let whole := s.takeWhile (isDigitOf form.base)
  let rest := s.dropWhile (isDigitOf form.base)
  let (fraction, rest) :=
    match rest with
    | 0x2E :: s => (s.takeWhile (isDigitOf form.base), s.dropWhile (isDigitOf form.base))
    | s => ([], s)
  if whole = [] ∧ fraction = [] then none
  else
    (form.readExponent rest).map fun exponent =>
      (natOfDigits form.base (whole ++ fraction) : ℚ) / (form.base : ℚ) ^ fraction.length *
        form.radix ^ exponent

end NumberForm

/-- Decimal literals. -/
def decimalForm : NumberForm where
  base := 10
  lowerMarker := 0x65
  upperMarker := 0x45
  radix := 10
  exponentRequired := false

/-- Hexadecimal literals of fractions, after their prefix. -/
def hexForm : NumberForm where
  base := 16
  lowerMarker := 0x70
  upperMarker := 0x50
  radix := 2
  exponentRequired := true

/-- A decimal digit is one of ten characters. -/
theorem isDigitOf_ten {c : ℕ} (h : isDigitOf 10 c) : 0x30 ≤ c ∧ c ≤ 0x39 := by
  by_contra hrange
  unfold isDigitOf digitValue at h
  rw [if_neg hrange] at h
  split at h
  · simp only [Option.any_some, decide_eq_true_eq] at h
    omega
  · split at h
    · simp only [Option.any_some, decide_eq_true_eq] at h
      omega
    · cases h

/-- A run of digits is a decimal literal. -/
theorem decimalForm_read_digits {s : List ℕ} (hne : s ≠ []) (h : ∀ c ∈ s, isDigitOf 10 c) :
    decimalForm.read s = some (natOfDigits 10 s : ℚ) := by
  have hall : s.takeWhile (isDigitOf decimalForm.base) = s := List.takeWhile_eq_self_iff.mpr h
  have hnone : s.dropWhile (isDigitOf decimalForm.base) = [] := List.dropWhile_eq_nil_iff.mpr h
  unfold NumberForm.read
  rw [hall, hnone]
  dsimp only
  rw [if_neg fun hboth => hne hboth.1, List.append_nil]
  have hexponent : decimalForm.readExponent [] = some 0 := rfl
  rw [hexponent, Option.map_some, List.length_nil, pow_zero, div_one, zpow_zero, mul_one]
  rfl

/-! ## Rounding -/

/-- The nearest integer, the even one of two. -/
def roundEven (q : ℚ) : ℤ :=
  if q - ⌊q⌋ < 1 / 2 then ⌊q⌋
  else if 1 / 2 < q - ⌊q⌋ then ⌊q⌋ + 1
  else ⌊q⌋ + ⌊q⌋ % 2

/-- The last place of the numbers of binary64 about `q`, as an exponent of two. -/
def lastPlace (q : ℚ) : ℤ := max (Int.log 2 |q| - 52) (-1074)

/-- The number of binary64 nearest to `q`, and none when that is an infinity. -/
def float64 (q : ℚ) : Option ℚ :=
  let rounded : ℚ := roundEven (q / 2 ^ lastPlace q) * 2 ^ lastPlace q
  if |rounded| < 2 ^ 1024 then some rounded else none

/-- Natural numbers below 2 ^ 53 are numbers of binary64. -/
theorem float64_natCast {n : ℕ} (h : n < 2 ^ 53) : float64 n = some (n : ℚ) := by
  have hlog : Int.log 2 |(n : ℚ)| ≤ 52 := by
    rw [abs_of_nonneg (Nat.cast_nonneg n), Int.log_natCast]
    rcases Nat.eq_zero_or_pos n with rfl | hn
    · simp
    · have := Nat.log_lt_of_lt_pow (by omega) h
      omega
  have hplace : lastPlace n ≤ 0 := by
    unfold lastPlace
    omega
  obtain ⟨k, hk⟩ := Int.exists_eq_neg_ofNat hplace
  have hscaled : (n : ℚ) / 2 ^ lastPlace n = ((n * 2 ^ k : ℕ) : ℤ) := by
    rw [hk, zpow_neg, zpow_natCast, div_inv_eq_mul]
    push_cast
    rfl
  have hround : roundEven ((n : ℚ) / 2 ^ lastPlace n) = ((n * 2 ^ k : ℕ) : ℤ) := by
    rw [hscaled]
    unfold roundEven
    rw [Int.floor_intCast, sub_self, if_pos (by norm_num)]
  have hback : (roundEven ((n : ℚ) / 2 ^ lastPlace n) : ℚ) * 2 ^ lastPlace n = n := by
    rw [hround, ← hscaled]
    exact div_mul_cancel₀ _ (zpow_ne_zero _ two_ne_zero)
  have hsmall : |(n : ℚ)| < 2 ^ 1024 := by
    rw [abs_of_nonneg (Nat.cast_nonneg n)]
    calc (n : ℚ) < 2 ^ 53 := by exact_mod_cast h
      _ ≤ 2 ^ 1024 := pow_le_pow_right₀ one_le_two (by decide)
  unfold float64
  dsimp only
  rw [hback, if_pos hsmall]

end Purels.Lib
