import Purels.Go.NetIP
import Purels.Js.Strings
import Purels.Lib.Numerals

/-!
# Header text and numbers in JavaScript

A header reaches a script as bytes read in Latin-1, one code unit for each.

* `latin1`: the string that arrives.
* `toLowerCase`, `split`: on such strings.
* `number`: `Number`, followed by `Number.isFinite`; `numberText`, `String` of an integer.
* `cut_latin1`, `split_latin1`: a header is taken apart as its bytes are.
-/

namespace Purels.Js

open Go Lib

/-- A header as a string: one unit for each byte. -/
def latin1 (s : GoString) : JsString := s.map UInt8.toUInt16

/-- The lower case of a unit below `U+0100`. -/
def lowerUnit (c : UInt16) : UInt16 :=
  if (0x41 ≤ c.toNat ∧ c.toNat ≤ 0x5A) ∨ (0xC0 ≤ c.toNat ∧ c.toNat ≤ 0xDE ∧ c.toNat ≠ 0xD7) then
    UInt16.ofNat (c.toNat + 0x20)
  else c

/-- `toLowerCase()` of a string of such units. -/
def toLowerCase (s : JsString) : JsString := s.map lowerUnit

/-- `split` at one unit. -/
def split (c : UInt16) : JsString → List JsString
  | [] => [[]]
  | b :: rest =>
    if b = c then [] :: split c rest
    else
      match split c rest with
      | [] => [[b]]
      | field :: fields => (b :: field) :: fields

/-- The base that a letter after a zero names. -/
def literalBase (c : Nat) : Option Nat :=
  if c = 0x78 ∨ c = 0x58 then some 16
  else if c = 0x6F ∨ c = 0x4F then some 8
  else if c = 0x62 ∨ c = 0x42 then some 2
  else none

/-- The exact value of `StringNumericLiteral`, when it has a finite one. -/
def numericLiteral : List Nat → Option ℚ
  | [] => some 0
  | 0x30 :: c :: rest =>
    match literalBase c with
    | some base => (readNat base rest).map Nat.cast
    | none => signed decimalForm.read (0x30 :: c :: rest)
  | s => signed decimalForm.read s

/-- `Number(s)` when it is finite. -/
def number (s : JsString) : Option ℚ := (numericLiteral (unitCodes (trim s))).bind float64

/-- `String(n)` of an integer. -/
def numberText (n : Int) : JsString :=
  (if n < 0 then [0x2D] else []) ++ (Lib.decimalText n.natAbs).map UInt8.toUInt16

/-! ## What arrives -/

@[simp] theorem latin1_eq_nil {s : GoString} : latin1 s = [] ↔ s = [] := List.map_eq_nil_iff

theorem mem_latin1 {c : UInt8} {s : GoString} : c.toUInt16 ∈ latin1 s ↔ c ∈ s := by
  rw [latin1, List.mem_map_of_injective fun _ _ => UInt8.toUInt16_inj.mp]

theorem bne_toUInt16 (b c : UInt8) : (b.toUInt16 != c.toUInt16) = (b != c) := by
  by_cases h : b = c
  · rw [h]
    simp
  · rw [bne_iff_ne.mpr h, bne_iff_ne.mpr fun heq => h (UInt8.toUInt16_inj.mp heq)]

/-- The lower case of a byte is in ASCII when the byte is. -/
theorem lowerUnit_eq_iff (b : UInt8) {w : UInt8} (hw : w.toNat < 0x80) :
    lowerUnit b.toUInt16 = w.toUInt16 ↔ asciiLower b.toNat = w.toNat := by
  have hb : b.toNat < 0x100 := b.toNat_lt
  rw [← UInt16.toNat_inj, UInt8.toNat_toUInt16, lowerUnit, UInt8.toNat_toUInt16, asciiLower]
  split_ifs
  · rw [UInt16.toNat_ofNat']
    omega
  · rw [UInt16.toNat_ofNat']
    omega
  · omega
  · rw [UInt8.toNat_toUInt16]

/-- A string is cut at the same place in both languages. -/
theorem cut_latin1 (c : UInt8) (s : GoString) :
    (latin1 s).takeWhile (· != c.toUInt16) = latin1 (cut c s).1 ∧
      ((latin1 s).dropWhile (· != c.toUInt16)).drop 1 = latin1 (cut c s).2 := by
  have hcongr : ((· != c.toUInt16) ∘ UInt8.toUInt16) = (· != c) := funext fun b => bne_toUInt16 b c
  constructor
  · rw [latin1, List.takeWhile_map, hcongr]
    rfl
  · rw [latin1, List.dropWhile_map, hcongr, ← List.map_drop]
    rfl

theorem split_latin1 (c : UInt8) (s : GoString) :
    Js.split c.toUInt16 (latin1 s) = (Go.split c s).map latin1 := by
  induction s with
  | nil => rfl
  | cons b s ih =>
    show Js.split c.toUInt16 (b.toUInt16 :: latin1 s) = _
    by_cases hb : b = c
    · rw [Js.split, Go.split, if_pos (congrArg _ hb), if_pos hb, ih]
      rfl
    · rw [Js.split, Go.split, if_neg fun heq => hb (UInt8.toUInt16_inj.mp heq), if_neg hb, ih]
      cases Go.split c s with
      | nil => rfl
      | cons field fields => rfl

/-! ## Numbers -/

/-- A run of digits is a number in decimal. -/
theorem numericLiteral_digits {s : List Nat} (hne : s ≠ []) (h : ∀ c ∈ s, isDigitOf 10 c) :
    numericLiteral s = some (natOfDigits 10 s : ℚ) := by
  have hsigned : signed decimalForm.read s = some (natOfDigits 10 s : ℚ) := by
    unfold signed
    split
    · exact absurd (h 0x2B List.mem_cons_self) (by decide)
    · exact absurd (h 0x2D List.mem_cons_self) (by decide)
    · exact decimalForm_read_digits hne h
  unfold numericLiteral
  split
  · exact absurd rfl hne
  · rename_i c rest
    have hbase : literalBase c = none := by
      have hdigit := h c (by simp)
      unfold literalBase
      rw [if_neg, if_neg, if_neg]
      all_goals
        rintro (rfl | rfl)
        · exact absurd hdigit (by decide)
        · exact absurd hdigit (by decide)
    rw [hbase]
    exact hsigned
  · exact hsigned

theorem numberText_ne_nil (n : Int) : numberText n ≠ [] := by
  unfold numberText
  exact List.append_ne_nil_of_right_ne_nil _ (List.map_eq_nil_iff.not.mpr (decimalText_ne_nil _))

/-- The text of a natural number is read as that number. -/
theorem number_numberText {n : ℕ} (h : n < 2 ^ 53) : number (numberText n) = some (n : ℚ) := by
  obtain ⟨hdigits, hvalue⟩ := natOfDigits_decimalText n
  have htext : numberText n = (Lib.decimalText n).map UInt8.toUInt16 := by
    unfold numberText
    rw [if_neg (by omega), Int.natAbs_natCast]
    rfl
  have hunits : unitCodes (numberText n) = (Lib.decimalText n).map UInt8.toNat := by
    rw [htext, unitCodes, List.map_map]
    exact List.map_congr_left fun b _ => UInt8.toNat_toUInt16 b
  have hvisible : trim (numberText n) = numberText n := by
    apply trim_visible
    rw [hunits]
    intro c hc
    have hdigit := isDigitOf_ten (hdigits c hc)
    omega
  rw [number, hvisible, hunits,
    numericLiteral_digits (List.map_eq_nil_iff.not.mpr (decimalText_ne_nil n)) hdigits,
    hvalue, Option.bind_some, float64_natCast h]

end Purels.Js
