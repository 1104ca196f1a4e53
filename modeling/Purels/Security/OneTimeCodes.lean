import Purels.Lib.Chunks
import Purels.Lib.Numerals
import Purels.Lib.Prefixes
import Purels.Security.SecondFactor

/-!
# One-time codes

What `VerifyTOTP` accepts, and how secrets are spelled.

* `encodeBase32`: `totpEncoding.EncodeToString`; `decodeBase32_encodeBase32`.
* `Spelling`: the ways of writing a secret that `DecodeTOTPSecret` reads.
* `hotpChecked`, `VerifyTOTPChecked`: the code and the loop with their panics.
* `truncated`: the number of a code, from its digest.
* `VerifyTOTP_window`: the codes of the window are accepted and no others.
-/

namespace Purels.Security

open Go

/-! ## Base 32 -/

/-- The digits of a group of at most five bytes. -/
def base32Digits : List UInt8 → List Nat
  | [a] => [a.toNat / 8, a.toNat % 8 * 4]
  | [a, b] =>
    [a.toNat / 8, a.toNat % 8 * 4 + b.toNat / 64, b.toNat / 2 % 32, b.toNat % 2 * 16]
  | [a, b, c] =>
    [a.toNat / 8, a.toNat % 8 * 4 + b.toNat / 64, b.toNat / 2 % 32,
      b.toNat % 2 * 16 + c.toNat / 16, c.toNat % 16 * 2]
  | [a, b, c, d] =>
    [a.toNat / 8, a.toNat % 8 * 4 + b.toNat / 64, b.toNat / 2 % 32,
      b.toNat % 2 * 16 + c.toNat / 16, c.toNat % 16 * 2 + d.toNat / 128, d.toNat / 4 % 32,
      d.toNat % 4 * 8]
  | [a, b, c, d, e] =>
    [a.toNat / 8, a.toNat % 8 * 4 + b.toNat / 64, b.toNat / 2 % 32,
      b.toNat % 2 * 16 + c.toNat / 16, c.toNat % 16 * 2 + d.toNat / 128, d.toNat / 4 % 32,
      d.toNat % 4 * 8 + e.toNat / 32, e.toNat % 32]
  | _ => []

/-- The cases of a group of one to five bytes. -/
@[elab_as_elim]
theorem group_cases {motive : List UInt8 → Prop} {g : List UInt8} (hne : g ≠ [])
    (hle : g.length ≤ 5) (one : ∀ a, motive [a]) (two : ∀ a b, motive [a, b])
    (three : ∀ a b c, motive [a, b, c]) (four : ∀ a b c d, motive [a, b, c, d])
    (five : ∀ a b c d e, motive [a, b, c, d, e]) : motive g := by
  match g, hne, hle with
  | [a], _, _ => exact one a
  | [a, b], _, _ => exact two a b
  | [a, b, c], _, _ => exact three a b c
  | [a, b, c, d], _, _ => exact four a b c d
  | [a, b, c, d, e], _, _ => exact five a b c d e
  | _ :: _ :: _ :: _ :: _ :: _ :: _, _, hle =>
    simp only [List.length_cons] at hle
    omega

/-- The bits of a byte stand in two digits or three. -/
theorem byte_of_digits (a : UInt8) {n : Nat} (h : n % 256 = a.toNat) : UInt8.ofNat n = a := by
  apply UInt8.toNat_inj.mp
  rw [UInt8.toNat_ofNat']
  exact h

theorem base32Group_digits {g : List UInt8} (hne : g ≠ []) (hle : g.length ≤ 5) :
    base32Group (base32Digits g) = g := by
  refine group_cases hne hle ?_ ?_ ?_ ?_ ?_
  · intro a
    have ha := a.toNat_lt
    simp only [base32Digits, base32Group, List.cons.injEq, and_true]
    exact byte_of_digits a (by omega)
  · intro a b
    have ha := a.toNat_lt
    have hb := b.toNat_lt
    simp only [base32Digits, base32Group, List.cons.injEq, and_true]
    exact ⟨byte_of_digits a (by omega), byte_of_digits b (by omega)⟩
  · intro a b c
    have ha := a.toNat_lt
    have hb := b.toNat_lt
    have hc := c.toNat_lt
    simp only [base32Digits, base32Group, List.cons.injEq, and_true]
    exact ⟨byte_of_digits a (by omega), byte_of_digits b (by omega),
      byte_of_digits c (by omega)⟩
  · intro a b c d
    have ha := a.toNat_lt
    have hb := b.toNat_lt
    have hc := c.toNat_lt
    have hd := d.toNat_lt
    simp only [base32Digits, base32Group, List.cons.injEq, and_true]
    exact ⟨byte_of_digits a (by omega), byte_of_digits b (by omega),
      byte_of_digits c (by omega), byte_of_digits d (by omega)⟩
  · intro a b c d e
    have ha := a.toNat_lt
    have hb := b.toNat_lt
    have hc := c.toNat_lt
    have hd := d.toNat_lt
    have he := e.toNat_lt
    simp only [base32Digits, base32Group, List.cons.injEq, and_true]
    exact ⟨byte_of_digits a (by omega), byte_of_digits b (by omega),
      byte_of_digits c (by omega), byte_of_digits d (by omega), byte_of_digits e (by omega)⟩

theorem length_base32Digits {g : List UInt8} (hne : g ≠ []) (hle : g.length ≤ 5) :
    base32Digits g ≠ [] ∧ (base32Digits g).length ≤ 8 := by
  refine group_cases hne hle ?_ ?_ ?_ ?_ ?_ <;>
  · intros
    exact ⟨List.cons_ne_nil _ _, by simp [base32Digits]⟩

/-- The digits that are made of the bits of one byte, or of two. -/
theorem digit_lt (a b : UInt8) : a.toNat / 8 < 32 ∧ a.toNat % 8 * 4 + b.toNat / 64 < 32 ∧
    a.toNat % 2 * 16 + b.toNat / 16 < 32 ∧ a.toNat % 16 * 2 + b.toNat / 128 < 32 ∧
    a.toNat % 4 * 8 + b.toNat / 32 < 32 := by
  have ha := a.toNat_lt
  have hb := b.toNat_lt
  omega

theorem base32Digits_lt {g : List UInt8} (hne : g ≠ []) (hle : g.length ≤ 5) :
    ∀ d ∈ base32Digits g, d < 32 := by
  have hfirst := fun a => (digit_lt a a).1
  have hsecond := fun a b => (digit_lt a b).2.1
  have hfourth := fun a b => (digit_lt a b).2.2.1
  have hfifth := fun a b => (digit_lt a b).2.2.2.1
  have hseventh := fun a b => (digit_lt a b).2.2.2.2
  refine group_cases hne hle ?_ ?_ ?_ ?_ ?_
  · intro a
    simp only [base32Digits, List.forall_mem_cons]
    exact ⟨hfirst a, by omega, List.forall_mem_nil _⟩
  · intro a b
    simp only [base32Digits, List.forall_mem_cons]
    exact ⟨hfirst a, hsecond a b, by omega, by omega, List.forall_mem_nil _⟩
  · intro a b c
    simp only [base32Digits, List.forall_mem_cons]
    exact ⟨hfirst a, hsecond a b, by omega, hfourth b c, by omega, List.forall_mem_nil _⟩
  · intro a b c d
    simp only [base32Digits, List.forall_mem_cons]
    exact ⟨hfirst a, hsecond a b, by omega, hfourth b c, hfifth c d, by omega, by omega,
      List.forall_mem_nil _⟩
  · intro a b c d e
    simp only [base32Digits, List.forall_mem_cons]
    exact ⟨hfirst a, hsecond a b, by omega, hfourth b c, hfifth c d, by omega, hseventh d e,
      by omega, List.forall_mem_nil _⟩

/-- The groups of base 32: five bytes, eight digits. -/
def base32Codec : Lib.GroupCodec UInt8 Nat where
  inSize := 5
  outSize := 8
  encode := base32Digits
  decode := base32Group
  inSize_pos := by decide
  outSize_pos := by decide
  length_full g h := by
    match g, h with
    | [_, _, _, _, _], _ => rfl
  length_short _ hne hle := length_base32Digits hne hle
  decode_encode _ hne hle := base32Group_digits hne hle

/-- `totpEncoding.EncodeToString`. -/
def encodeBase32 (key : List UInt8) : GoString :=
  (base32Codec.encodeAll key).map base32Digit

/-- A digit stands for its value; it is an upper-case letter or one of six decimal digits. -/
theorem base32Digit_spec : ∀ d < 32, base32Value (base32Digit d) = some d ∧
    (base32Digit d).toNat < 0x60 ∧ 0x31 < (base32Digit d).toNat ∧ base32Digit d ≠ 0x3D := by
  decide

theorem base32Digits_valid (g : List UInt8) : ∀ d ∈ base32Digits g, d < 32 := by
  by_cases hne : g ≠ []
  · by_cases hle : g.length ≤ 5
    · exact base32Digits_lt hne hle
    · unfold base32Digits
      split
      · simp at hle
      · simp at hle
      · simp at hle
      · simp at hle
      · simp at hle
      · exact List.forall_mem_nil _
  · rw [not_not.mp hne]
    exact List.forall_mem_nil _

theorem encodeAll_valid (key : List UInt8) : ∀ d ∈ base32Codec.encodeAll key, d < 32 := by
  intro d hd
  obtain ⟨g, -, hd⟩ := List.mem_flatMap.mp hd
  exact base32Digits_valid g d hd

/-- A byte of an encoded key is none of those that are dropped or trimmed. -/
theorem encodeBase32_mem {key : List UInt8} {c : UInt8} (hc : c ∈ encodeBase32 key) :
    c.toNat < 0x60 ∧ 0x31 < c.toNat ∧ c ≠ 0x3D := by
  obtain ⟨d, hd, rfl⟩ := List.mem_map.mp hc
  exact (base32Digit_spec d (encodeAll_valid key d hd)).2

theorem mapM_digits {ds : List Nat} (h : ∀ d ∈ ds, d < 32) :
    (ds.map base32Digit).mapM base32Value = some ds := by
  induction ds with
  | nil => rfl
  | cons d ds ih =>
    rw [List.map_cons, List.mapM_cons, (base32Digit_spec d (h d List.mem_cons_self)).1,
      ih fun e he => h e (List.mem_cons_of_mem d he)]
    rfl

/-- Decoding gives back the bytes of a key. -/
theorem decodeBase32_encodeBase32 (key : List UInt8) :
    decodeBase32 (encodeBase32 key) = some key := by
  have hfilter :
      ((encodeBase32 key).filter fun c => c != 0x0A && c != 0x0D) = encodeBase32 key := by
    apply List.filter_eq_self.mpr
    intro c hc
    obtain ⟨-, hlow, -⟩ := encodeBase32_mem hc
    rw [Bool.and_eq_true, bne_iff_ne, bne_iff_ne]
    constructor <;>
    · rintro rfl
      exact absurd hlow (by decide)
  rw [decodeBase32, hfilter, encodeBase32, mapM_digits (encodeAll_valid key), Option.map_some]
  exact congrArg some (base32Codec.decodeAll_encodeAll key)

theorem encodeBase32_ne_nil {key : List UInt8} (h : key ≠ []) : encodeBase32 key ≠ [] := by
  intro hnil
  have hkey := decodeBase32_encodeBase32 key
  rw [hnil] at hkey
  exact h (Option.some.inj hkey).symm

/-- A group of five bytes, as one number. -/
theorem encodeBase32Group_eq (a b c d e : UInt8) :
    encodeBase32Group [a, b, c, d, e] = (base32Digits [a, b, c, d, e]).map base32Digit := by
  have ha := a.toNat_lt
  have hb := b.toNat_lt
  have hc := c.toNat_lt
  have hd := d.toNat_lt
  have he := e.toNat_lt
  have hrange : List.range 8 = [0, 1, 2, 3, 4, 5, 6, 7] := rfl
  simp only [encodeBase32Group, base32Digits, hrange, List.map_cons, List.map_nil, List.cons.injEq,
    Nat.reduceSub, Nat.reducePow, Nat.div_one, and_true]
  refine ⟨congrArg _ ?_, congrArg _ ?_, congrArg _ ?_, congrArg _ ?_, congrArg _ ?_, congrArg _ ?_,
    congrArg _ ?_, congrArg _ ?_⟩ <;> omega

/-! ## Spellings of a secret -/

/-- A letter in upper case; any other byte as it is. -/
def upperByte (b : UInt8) : UInt8 := UInt8.ofNat (asciiUpper b.toNat)

/-- A text spells a code: letters in either case, spaces anywhere, padding at the end. -/
def Spelling (code text : GoString) : Prop :=
  ∃ letters n, text.filter (· != 0x20) = letters ++ List.replicate n 0x3D ∧
    letters.map upperByte = code

theorem upperByte_spec (b : UInt8) : (upperByte b != 0x20) = (b != 0x20) ∧
    (0x31 < (upperByte b).toNat → (upperByte b).toNat < 0x60 → 0x31 < b.toNat ∧ b.toNat < 0x7F) :=
  Lib.forall_byte b (by decide +kernel)

/-- Elements that a filter would drop anyway may be dropped at the start, or at the end. -/
theorem filter_dropWhile {α : Type} {p q : α → Bool} {l : List α}
    (h : ∀ a ∈ l, p a → q a = false) : (l.dropWhile p).filter q = l.filter q := by
  have hcut : (l.takeWhile p).filter q = [] := by
    apply List.filter_eq_nil_iff.mpr
    intro a ha
    rw [h a ((List.takeWhile_prefix p).subset ha) (List.mem_takeWhile_imp ha)]
    decide
  calc (l.dropWhile p).filter q = (l.takeWhile p ++ l.dropWhile p).filter q := by
        rw [List.filter_append, hcut, List.nil_append]
    _ = l.filter q := by rw [List.takeWhile_append_dropWhile]

theorem filter_rdropWhile {α : Type} {p q : α → Bool} {l : List α}
    (h : ∀ a ∈ l, p a → q a = false) : (l.rdropWhile p).filter q = l.filter q := by
  rw [List.rdropWhile, List.filter_reverse, filter_dropWhile, List.filter_reverse,
    List.reverse_reverse]
  intro a ha
  exact h a (List.mem_reverse.mp ha)

section

variable {key : List UInt8} {text : GoString}

/-- A byte of a spelled secret is a visible one or a space. -/
theorem Spelling.mem (h : Spelling (encodeBase32 key) text) {b : UInt8} (hb : b ∈ text) :
    b = 0x20 ∨ 0x31 < b.toNat ∧ b.toNat < 0x7F := by
  obtain ⟨letters, n, htext, hcode⟩ := h
  by_cases hspace : b = 0x20
  · exact Or.inl hspace
  · have hmem : b ∈ letters ++ List.replicate n 0x3D := by
      rw [← htext]
      exact List.mem_filter.mpr ⟨hb, by simpa using hspace⟩
    right
    rcases List.mem_append.mp hmem with hletter | hpad
    · have hupper : upperByte b ∈ encodeBase32 key := by
        rw [← hcode]
        exact List.mem_map_of_mem hletter
      obtain ⟨hhigh, hlow, -⟩ := encodeBase32_mem hupper
      exact (upperByte_spec b).2 hlow hhigh
    · rw [(List.mem_replicate.mp hpad).2]
      decide

/-- Every spelling of a key is read as the key. -/
theorem DecodeTOTPSecret_spelling (u : Unicode) (hne : key ≠ [])
    (h : Spelling (encodeBase32 key) text) : DecodeTOTPSecret u text = some key := by
  have hascii : ∀ b ∈ text, b.toNat < 0x80 := by
    intro b hb
    rcases h.mem hb with rfl | ⟨-, hhigh⟩
    · decide
    · omega
  have hspace : ∀ b ∈ text, isSpace b.toNat → (b != 0x20) = false := by
    intro b hb hsp
    rcases h.mem hb with rfl | ⟨hlow, hhigh⟩
    · rfl
    · simp only [isSpace, Bool.or_eq_true, Bool.and_eq_true, decide_eq_true_eq, beq_iff_eq] at hsp
      omega
  have hsub : ∀ b ∈ trimSpace text, b ∈ text := fun b hb => ( trimSpace_infix text).subset hb
  have hfilter : (trimSpace text).filter (· != 0x20) = text.filter (· != 0x20) := by
    rw [trimSpace_ascii hascii, filter_rdropWhile, filter_dropWhile hspace]
    intro b hb
    exact hspace b ((List.dropWhile_suffix _).subset hb)
  have hupper : (toUpper u (trimSpace text)).filter (· != 0x20) =
      (text.filter (· != 0x20)).map upperByte := by
    rw [toUpper_ascii u fun b hb => hascii b (hsub b hb), List.filter_map, ← hfilter]
    congr 1
    apply List.filter_congr
    intro b _
    exact (upperByte_spec b).1
  obtain ⟨letters, n, htext, hcode⟩ := h
  have hpad : (encodeBase32 key).getLast? ≠ some 0x3D := by
    intro hlast
    exact (encodeBase32_mem (List.mem_of_getLast? hlast)).2.2 rfl
  have hnormal : trimRightByte 0x3D ((toUpper u (trimSpace text)).filter (· != 0x20)) =
      encodeBase32 key := by
    rw [hupper, htext, List.map_append, hcode, List.map_replicate]
    exact trimRightByte_replicate hpad n
  unfold DecodeTOTPSecret
  dsimp only
  rw [hnormal, if_neg (encodeBase32_ne_nil hne), decodeBase32_encodeBase32]
  exact if_neg hne

/-- The secrets that the program makes are encodings of the bytes drawn. -/
theorem newTOTPSecret_eq (drawn : Fin 20 → UInt8) :
    newTOTPSecret drawn = encodeBase32 (List.ofFn drawn) := by
  have hchunks : (List.ofFn drawn).toChunks 5 =
      [[drawn 0, drawn 1, drawn 2, drawn 3, drawn 4], [drawn 5, drawn 6, drawn 7, drawn 8, drawn 9],
        [drawn 10, drawn 11, drawn 12, drawn 13, drawn 14],
        [drawn 15, drawn 16, drawn 17, drawn 18, drawn 19]] := rfl
  have hencode : base32Codec.encodeAll (List.ofFn drawn) =
      ((List.ofFn drawn).toChunks 5).flatMap base32Digits := rfl
  rw [newTOTPSecret, encodeBase32, hencode, hchunks, List.map_flatMap]
  simp only [List.flatMap_cons, List.flatMap_nil, encodeBase32Group_eq]

/-- A fresh secret is read as the bytes drawn. -/
theorem DecodeTOTPSecret_new (u : Unicode) (drawn : Fin 20 → UInt8) :
    DecodeTOTPSecret u (newTOTPSecret drawn) = some (List.ofFn drawn) := by
  have hupper : ∀ c ∈ encodeBase32 (List.ofFn drawn), upperByte c = c ∧ (c != 0x20) = true := by
    intro c hc
    obtain ⟨hhigh, hlow, -⟩ := encodeBase32_mem hc
    constructor
    · rw [upperByte, asciiUpper, if_neg (by omega), UInt8.ofNat_toNat]
    · rw [bne_iff_ne]
      rintro rfl
      exact absurd hlow (by decide)
  apply DecodeTOTPSecret_spelling u (List.ne_nil_of_length_pos (by rw [List.length_ofFn]; decide))
  rw [newTOTPSecret_eq]
  refine ⟨encodeBase32 (List.ofFn drawn), 0, ?_, ?_⟩
  · rw [List.replicate_zero, List.append_nil]
    exact List.filter_eq_self.mpr fun c hc => (hupper c hc).2
  · exact (List.map_congr_left fun c hc => (hupper c hc).1).trans (List.map_id _)

end

/-! ## Decimal digits -/

/-- The number that a run of decimal digits stands for. -/
def readDecimal (s : GoString) : Option Nat := Lib.readNumeral Lib.decimalValue 10 s

/-- `%0*d`: zeros in front of a number that is shorter than the width. -/
def sprintfZeros (width n : Nat) : GoString :=
  List.replicate (width - (Lib.decimalText n).length) 0x30 ++ Lib.decimalText n

theorem paddedDecimal_zeros (width n : Nat) (h : n < 10 ^ width) :
    paddedDecimal width n =
      List.replicate (width - (Lib.numeral Lib.decimalDigit 10 n).length) 0x30 ++
        Lib.numeral Lib.decimalDigit 10 n := by
  induction width generalizing n with
  | zero =>
    obtain rfl : n = 0 := by omega
    rfl
  | succ width ih =>
    have hdiv : n / 10 < 10 ^ width := by
      rw [Nat.pow_succ] at h
      exact Nat.div_lt_of_lt_mul (by omega)
    rw [paddedDecimal, ih _ hdiv]
    rcases Nat.eq_zero_or_pos n with rfl | hn
    · show List.replicate width 0x30 ++ [] ++ [0x30] = List.replicate (width + 1) 0x30 ++ []
      rw [List.append_nil, List.append_nil, List.replicate_succ']
    · rw [Lib.numeral_step (by decide) hn, List.length_append, List.length_singleton,
        Nat.add_sub_add_right, List.append_assoc]
      rfl

/-- A number that fits the width is padded to the width. -/
theorem sprintfZeros_eq {width n : Nat} (hwidth : 0 < width) (h : n < 10 ^ width) :
    sprintfZeros width n = paddedDecimal width n := by
  rw [paddedDecimal_zeros width n h, sprintfZeros, Lib.decimalText]
  split_ifs with hzero
  · obtain ⟨k, rfl⟩ : ∃ k, width = k + 1 := ⟨width - 1, by omega⟩
    rw [hzero]
    show List.replicate k 0x30 ++ [0x30] = List.replicate (k + 1) 0x30 ++ []
    rw [List.append_nil, List.replicate_succ']
  · rfl

/-- The padded digits of a number are the only text of that width that stands for it. -/
theorem eq_paddedDecimal_iff {width n : Nat} (h : n < 10 ^ width) (s : GoString) :
    s = paddedDecimal width n ↔ s.length = width ∧ readDecimal s = some n := by
  induction width generalizing n s with
  | zero =>
    obtain rfl : n = 0 := by omega
    constructor
    · rintro rfl
      exact ⟨rfl, rfl⟩
    · rintro ⟨hlength, -⟩
      exact List.length_eq_zero_iff.mp hlength
  | succ width ih =>
    have hdiv : n / 10 < 10 ^ width := by
      rw [Nat.pow_succ] at h
      exact Nat.div_lt_of_lt_mul (by omega)
    rw [paddedDecimal]
    constructor
    · rintro rfl
      obtain ⟨hlength, hread⟩ := (ih hdiv (paddedDecimal width (n / 10))).mp rfl
      constructor
      · rw [List.length_append, hlength, List.length_singleton]
      · unfold readDecimal Lib.readNumeral at hread ⊢
        have hlast : Lib.decimalValue (UInt8.ofNat (0x30 + n % 10)) = some (n % 10) :=
          Lib.decimalValue_digit _ (Nat.mod_lt _ (by decide))
        rw [Lib.readFrom_append, hread, Option.bind_some, Lib.readFrom_singleton, hlast,
          Option.map_some, Nat.div_add_mod']
    · rintro ⟨hlength, hread⟩
      have hne : s ≠ [] := by
        rintro rfl
        exact absurd hlength (by simp)
      obtain ⟨t, c, rfl⟩ : ∃ t c, s = t ++ [c] :=
        ⟨s.dropLast, s.getLast hne, (List.dropLast_append_getLast hne).symm⟩
      rw [List.length_append, List.length_singleton] at hlength
      unfold readDecimal Lib.readNumeral at hread
      rw [Lib.readFrom_append, Option.bind_eq_some_iff] at hread
      obtain ⟨m, hm, hlast⟩ := hread
      rw [Lib.readFrom_singleton, Option.map_eq_some_iff] at hlast
      obtain ⟨d, hd, hsum⟩ := hlast
      obtain ⟨hlt, hc⟩ := Lib.decimalDigit_of_value hd
      have hquot : m = n / 10 := by omega
      have hrem : d = n % 10 := by omega
      have ht : t = paddedDecimal width (n / 10) :=
        (ih hdiv t).mpr ⟨by omega, by rw [← hquot]; exact hm⟩
      rw [ht, ← hc, hrem]
      rfl

/-! ## The code of a step -/

section

variable (crypto : Crypto)

/-- `s[low:high]`; bounds outside of the digest are a panic. -/
def slice (s : List UInt8) (low high : Nat) : Option (List UInt8) :=
  if low ≤ high ∧ high ≤ s.length then some ((s.take high).drop low) else none

/-- `binary.BigEndian.Uint32`. -/
def bigEndianUint32 (s : List UInt8) : UInt32 :=
  UInt32.ofNat (s.foldl (fun n b => n * 256 + b.toNat) 0)

/-- `hotp`, on the words of the program and with its panics. -/
def hotpChecked (key : List UInt8) (counter : UInt64) (digits : Nat) : Option GoString := do
  let sum := crypto.hmacSHA1 key (bigEndian counter.toNat)
  let last ← sum[sum.length - 1]?
  let offset := last &&& 0x0F
  let word ← slice sum offset.toNat (offset + 4).toNat
  let value := bigEndianUint32 word &&& 0x7FFFFFFF
  let modulo := (List.range digits).foldl (fun m _ => m * 10) (1 : UInt32)
  if modulo = 0 then none else some (sprintfZeros digits (value % modulo).toNat)

/-- The loop of `VerifyTOTP`, which does not stop early. -/
def verifySteps (key : List UInt8) (candidate : GoString) (base : Int) : Option Bool :=
  [-totpSkew, 0, totpSkew].foldlM (fun matched offset =>
    let step := base + offset
    if step < 0 then some matched
    else (hotpChecked crypto key (UInt64.ofNat step.toNat) totpDigits).map fun expected =>
      if expected = candidate then true else matched) false

/-- `VerifyTOTP`, with the panics of the code. -/
def VerifyTOTPChecked (u : Unicode) (secret code : GoString) (at' : Instant) : Option Bool :=
  let candidate := (trimSpace code).filter (· != 0x20)
  if candidate.length ≠ totpDigits then some false
  else
    match DecodeTOTPSecret u secret with
    | none => some false
    | some key => verifySteps crypto key candidate (counterAt at')

/-- The dynamic truncation of a digest: 31 bits, from the byte on that its last four bits name. -/
def truncated (digest : List UInt8) : Nat :=
  let offset := (digest.getD 19 0).toNat % 16
  let byte := fun i => (digest.getD (offset + i) 0).toNat
  byte 0 % 128 * 2 ^ 24 + byte 1 * 2 ^ 16 + byte 2 * 2 ^ 8 + byte 3

/-- The six-digit code of a step. -/
def IsCode (key : List UInt8) (step : Nat) (code : GoString) : Prop :=
  code.length = 6 ∧
    readDecimal code = some (truncated (crypto.hmacSHA1 key (bigEndian step)) % 10 ^ 6)

variable {crypto}

/-- Four bytes of a text, from some place on. -/
theorem take_four {s : List UInt8} {i : Nat} (h : i + 4 ≤ s.length) :
    (s.drop i).take 4 = [s.getD i 0, s.getD (i + 1) 0, s.getD (i + 2) 0, s.getD (i + 3) 0] := by
  have hget : ∀ j (hj : j < s.length), s.drop j = s.getD j 0 :: s.drop (j + 1) := by
    intro j hj
    rw [List.getD_eq_getElem?_getD, List.getElem?_eq_getElem hj, Option.getD_some]
    exact List.drop_eq_getElem_cons hj
  rw [hget i (by omega), hget (i + 1) (by omega), hget (i + 2) (by omega), hget (i + 3) (by omega)]
  rfl

theorem foldl_four (a b c d : UInt8) :
    [a, b, c, d].foldl (fun n x => n * 256 + x.toNat) 0 =
      ((a.toNat * 256 + b.toNat) * 256 + c.toNat) * 256 + d.toNat := by
  simp only [List.foldl_cons, List.foldl_nil]
  omega

/-- The word that `hotp` cuts out of a digest. -/
theorem word_mod {digest : List UInt8} (h : digest.length = 20) :
    ((digest.drop ((digest.getLast?.getD 0).toNat % 16)).take 4).foldl
      (fun n b => n * 256 + b.toNat) 0 % 2 ^ 31 = truncated digest := by
  have hlast : digest.getLast?.getD 0 = digest.getD 19 0 := by
    rw [List.getLast?_eq_getElem?, h, List.getD_eq_getElem?_getD]
  rw [hlast, take_four (by omega), foldl_four]
  have h0 := (digest.getD ((digest.getD 19 0).toNat % 16) 0).toNat_lt
  have h1 := (digest.getD ((digest.getD 19 0).toNat % 16 + 1) 0).toNat_lt
  have h2 := (digest.getD ((digest.getD 19 0).toNat % 16 + 2) 0).toNat_lt
  have h3 := (digest.getD ((digest.getD 19 0).toNat % 16 + 3) 0).toNat_lt
  unfold truncated
  simp only [Nat.add_zero]
  omega

/-- A six-digit code, said of the text. -/
theorem eq_hotp_iff {key : List UInt8} {step : Nat}
    (h : (crypto.hmacSHA1 key (bigEndian step)).length = 20) (code : GoString) :
    code = hotp crypto key step totpDigits ↔ IsCode crypto key step code := by
  unfold hotp
  dsimp only
  rw [word_mod h]
  exact eq_paddedDecimal_iff (Nat.mod_lt _ (by decide)) code

/-- Eight bytes hold what is left of a counter in 64 bits. -/
theorem bigEndian_mod (n : Nat) : bigEndian (n % 2 ^ 64) = bigEndian n := by
  unfold bigEndian
  apply List.map_congr_left
  intro i hi
  apply UInt8.toNat_inj.mp
  rw [UInt8.toNat_ofNat', UInt8.toNat_ofNat']
  have hexp : 7 - i + (i + 1) = 8 := by
    have hlt := List.mem_range.mp hi
    omega
  have hpow : 2 ^ 64 = 256 ^ (7 - i) * 256 ^ (i + 1) := by
    rw [← Nat.pow_add, hexp]
    decide
  rw [hpow, Nat.mod_mul_right_div_self, Nat.pow_succ]
  exact Nat.mod_mul_left_mod _ _ _

/-- The last four bits of a byte, and the place four further. -/
theorem offset_spec (last : UInt8) :
    (last &&& 0x0F).toNat = last.toNat % 16 ∧ ((last &&& 0x0F) + 4).toNat = last.toNat % 16 + 4 :=
  Lib.forall_byte last (by decide +kernel)

theorem slice_four {s : List UInt8} {i : Nat} (h : i + 4 ≤ s.length) :
    slice s i (i + 4) = some ((s.drop i).take 4) := by
  rw [slice, if_pos ⟨Nat.le_add_right i 4, h⟩, List.drop_take, Nat.add_sub_cancel_left]

/-- The lower 31 bits of a word. -/
theorem value_mod (s : List UInt8) :
    (bigEndianUint32 s &&& 0x7FFFFFFF).toNat =
      s.foldl (fun n b => n * 256 + b.toNat) 0 % 2 ^ 31 := by
  have hmask : (0x7FFFFFFF : UInt32).toNat = 2 ^ 31 - 1 := rfl
  rw [bigEndianUint32, UInt32.toNat_and, hmask, Nat.and_two_pow_sub_one_eq_mod, UInt32.toNat_ofNat']
  exact Nat.mod_mod_of_dvd _ (by decide)

/-- The loop that makes the modulus does not overflow below ten digits. -/
theorem modulo_spec : ∀ digits < 10,
    ((List.range digits).foldl (fun m _ => m * 10) (1 : UInt32)).toNat = 10 ^ digits := by
  decide

/-- The code never leaves the digest, and is the one of the model. -/
theorem hotpChecked_eq {key : List UInt8} {counter : UInt64} {digits : Nat}
    (h : (crypto.hmacSHA1 key (bigEndian counter.toNat)).length = 20) (hpos : 0 < digits)
    (hlt : digits < 10) :
    hotpChecked crypto key counter digits = some (hotp crypto key counter.toNat digits) := by
  have hmodulo := modulo_spec digits hlt
  have hten : 0 < 10 ^ digits := Nat.pow_pos (by decide)
  have hne : (List.range digits).foldl (fun m _ => m * 10) (1 : UInt32) ≠ 0 := by
    intro hzero
    rw [hzero] at hmodulo
    exact hten.ne hmodulo
  unfold hotpChecked hotp
  dsimp only
  generalize crypto.hmacSHA1 key (bigEndian counter.toNat) = sum at h ⊢
  have hget : sum[20 - 1]? = some (sum.getLast?.getD 0) := by
    rw [List.getLast?_eq_getElem?, h, List.getElem?_eq_getElem (by omega)]
    rfl
  obtain ⟨hlow, hhigh⟩ := offset_spec (sum.getLast?.getD 0)
  have hslice := slice_four (s := sum) (i := (sum.getLast?.getD 0).toNat % 16) (by omega)
  simp only [h, hget, hlow, hhigh, hslice, hne, Option.bind_eq_bind, Option.bind_some, if_false]
  rw [UInt32.toNat_mod, value_mod, hmodulo]
  congr 1
  exact sprintfZeros_eq hpos (Nat.mod_lt _ hten)

/-- The loop asks each step of the window that is not negative. -/
theorem verifySteps_eq {key : List UInt8}
    (h : ∀ message, (crypto.hmacSHA1 key message).length = 20) (candidate : GoString) (base : Int) :
    verifySteps crypto key candidate base = some ([-totpSkew, 0, totpSkew].any fun offset =>
      decide (0 ≤ base + offset) &&
        hotp crypto key (base + offset).toNat totpDigits == candidate) := by
  have hcode : ∀ n, hotpChecked crypto key (UInt64.ofNat n) totpDigits =
      some (hotp crypto key n totpDigits) := by
    intro n
    rw [hotpChecked_eq (h _) (by decide) (by decide)]
    unfold hotp
    rw [UInt64.toNat_ofNat', bigEndian_mod]
  have hstep : ∀ (matched : Bool) (offset : Int),
      (if base + offset < 0 then some matched
        else (hotpChecked crypto key (UInt64.ofNat (base + offset).toNat) totpDigits).map
          fun expected => if expected = candidate then true else matched) =
        some (matched || (decide (0 ≤ base + offset) &&
          hotp crypto key (base + offset).toNat totpDigits == candidate)) := by
    intro matched offset
    rw [hcode]
    by_cases hneg : base + offset < 0
    · rw [if_pos hneg, decide_eq_false (by omega), Bool.false_and, Bool.or_false]
    · rw [if_neg hneg, decide_eq_true (by omega), Bool.true_and, Option.map_some]
      by_cases heq : hotp crypto key (base + offset).toNat totpDigits = candidate
      · rw [if_pos heq, beq_iff_eq.mpr heq, Bool.or_true]
      · rw [if_neg heq, beq_eq_false_iff_ne.mpr heq, Bool.or_false]
  unfold verifySteps
  dsimp only [List.foldlM]
  rw [hstep]
  dsimp only [Option.bind_eq_bind, Option.bind_some]
  rw [hstep]
  dsimp only [Option.bind_eq_bind, Option.bind_some]
  rw [hstep]
  simp [Bool.or_assoc]

/-- The program does not panic, and answers as the model does. -/
theorem VerifyTOTPChecked_eq (h : ∀ key message, (crypto.hmacSHA1 key message).length = 20)
    (u : Unicode) (secret code : GoString) (at' : Instant) :
    VerifyTOTPChecked crypto u secret code at' = some (VerifyTOTP u crypto secret code at') := by
  unfold VerifyTOTPChecked VerifyTOTP
  dsimp only
  split_ifs
  · rfl
  · cases DecodeTOTPSecret u secret with
    | none => rfl
    | some key => exact verifySteps_eq (h key) _ _

/-- The steps that the loop asks. -/
theorem window_iff {base step : Nat} :
    (∃ offset ∈ [-totpSkew, 0, totpSkew], 0 ≤ (base : Int) + offset ∧
      ((base : Int) + offset).toNat = step) ↔ step + 1 = base ∨ step = base ∨ step = base + 1 := by
  simp only [totpSkew, List.mem_cons, List.not_mem_nil, or_false, exists_eq_or_imp,
    exists_eq_left]
  omega

/-- For every secret, every code and every time that is not before the epoch: the program does not
panic; it accepts just when the secret is read and the code, without white space around it and
spaces inside, is the six-digit code of the step of that time or of the one before or after it;
no code of any key and counter, of up to nine digits, reads outside of the digest; and every
spelling of the encoding of a key is read as the key. -/
theorem VerifyTOTP_window (h : ∀ key message, (crypto.hmacSHA1 key message).length = 20)
    (u : Unicode) (secret code : GoString) {at' : Instant} (hepoch : 0 ≤ at') {key : List UInt8}
    (hkey : key ≠ []) {text : GoString} (hspelling : Spelling (encodeBase32 key) text) :
    let base := (at' / second / totpPeriod).toNat
    VerifyTOTPChecked crypto u secret code at' = some (VerifyTOTP u crypto secret code at') ∧
    (VerifyTOTP u crypto secret code at' = true ↔
      ∃ k, DecodeTOTPSecret u secret = some k ∧
        ∃ step, (step + 1 = base ∨ step = base ∨ step = base + 1) ∧
          IsCode crypto k step ((trimSpace code).filter (· != 0x20))) ∧
    (∀ k counter digits, 0 < digits → digits < 10 →
      hotpChecked crypto k counter digits = some (hotp crypto k counter.toNat digits)) ∧
    DecodeTOTPSecret u text = some key := by
  intro base
  have hbase : counterAt at' = (base : Int) := by
    have hsecond : 0 ≤ at' / second := Int.ediv_nonneg hepoch (by decide)
    exact (Int.toNat_of_nonneg (Int.ediv_nonneg hsecond (by decide))).symm
  refine ⟨VerifyTOTPChecked_eq h u secret code at', ?_,
    fun k counter digits => hotpChecked_eq (h k _), DecodeTOTPSecret_spelling u hkey hspelling⟩
  unfold VerifyTOTP
  dsimp only
  rw [hbase]
  constructor
  · intro haccepted
    split_ifs at haccepted with hlength
    cases hread : DecodeTOTPSecret u secret with
    | none =>
      rw [hread] at haccepted
      cases haccepted
    | some k =>
      rw [hread] at haccepted
      obtain ⟨offset, hoffset, hmatch⟩ := List.any_eq_true.mp haccepted
      rw [Bool.and_eq_true, decide_eq_true_eq, beq_iff_eq] at hmatch
      refine ⟨k, rfl, ((base : Int) + offset).toNat,
        window_iff.mp ⟨offset, hoffset, hmatch.1, rfl⟩, ?_⟩
      exact (eq_hotp_iff (h k _) _).mp hmatch.2.symm
  · rintro ⟨k, hread, step, hwindow, hcode⟩
    obtain ⟨offset, hoffset, hnonneg, hstep⟩ := window_iff.mpr hwindow
    have hlength : ((trimSpace code).filter (· != 0x20)).length = totpDigits := hcode.1
    rw [if_neg (not_not.mpr hlength), hread]
    apply List.any_eq_true.mpr
    refine ⟨offset, hoffset, ?_⟩
    rw [Bool.and_eq_true, decide_eq_true_eq, beq_iff_eq, hstep]
    exact ⟨hnonneg, ((eq_hotp_iff (h k _) _).mpr hcode).symm⟩

/-- The key of the test vectors of one-time codes. -/
def vectorKey : List UInt8 := lit "12345678901234567890"

/-- The digests of its first two counters. -/
def vectorCrypto : Crypto where
  hmacSHA1 key message :=
    if key = vectorKey ∧ message = bigEndian 0 then
      [0xCC, 0x93, 0xCF, 0x18, 0x50, 0x8D, 0x94, 0x93, 0x4C, 0x64, 0xB6, 0x5D, 0x8B, 0xA7, 0x66,
        0x7F, 0xB7, 0xCD, 0xE4, 0xB0]
    else if key = vectorKey ∧ message = bigEndian 1 then
      [0x75, 0xA4, 0x8A, 0x19, 0xD4, 0xCB, 0xE1, 0x00, 0x64, 0x4E, 0x8A, 0xC1, 0x39, 0x7E, 0xEA,
        0x74, 0x7A, 0x2D, 0x33, 0xAB]
    else List.replicate 20 0
  sha256 _ := []
  checkPassword _ _ := false
  gcmSeal _ plaintext := plaintext
  gcmOpen sealed := some sealed

/-- Ten seconds after the epoch there are two steps to accept. -/
theorem VerifyTOTP_vector :
    let code := lit " 287 082 "
    let secret := lit "GEZDGNBVGY3TQOJQGEZDGNBVGY3TQOJQ"
    let text := lit "gezd gnbv gy3t qojq GEZD GNBV GY3T QOJQ=="
    let base := (10 * second / second / totpPeriod).toNat
    VerifyTOTPChecked vectorCrypto .ascii secret code (10 * second) =
      some (VerifyTOTP .ascii vectorCrypto secret code (10 * second)) ∧
    (VerifyTOTP .ascii vectorCrypto secret code (10 * second) = true ↔
      ∃ k, DecodeTOTPSecret .ascii secret = some k ∧
        ∃ step, (step + 1 = base ∨ step = base ∨ step = base + 1) ∧
          IsCode vectorCrypto k step ((trimSpace code).filter (· != 0x20))) ∧
    (∀ k counter digits, 0 < digits → digits < 10 →
      hotpChecked vectorCrypto k counter digits = some (hotp vectorCrypto k counter.toNat digits)) ∧
    DecodeTOTPSecret .ascii text = some vectorKey := by
  have hdigest : ∀ key message, (vectorCrypto.hmacSHA1 key message).length = 20 := by
    intro key message
    show (if _ then _ else if _ then _ else _ : List UInt8).length = 20
    split_ifs <;> rfl
  exact VerifyTOTP_window hdigest .ascii _ _ (by decide) (by decide)
    ⟨lit "gezdgnbvgy3tqojqGEZDGNBVGY3TQOJQ", 2, by decide, by decide⟩

example : VerifyTOTP .ascii vectorCrypto (lit "GEZDGNBVGY3TQOJQGEZDGNBVGY3TQOJQ")
    (lit " 287 082 ") (10 * second) = true := by decide

end

end Purels.Security
