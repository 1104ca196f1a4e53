import Purels.Go.Strings

/-!
# JavaScript strings

A JavaScript string is a sequence of UTF-16 code units.  A Go string reaches one through
JSON, which carries runes: a byte that is not UTF-8 arrives as `U+FFFD`.

* `ofGo`: the string that arrives.
* `trim`, `stripSlashes`: what a field is read through.
* `runeCodes_of_ofGo` and `unitCodes_ofGo`: units of ASCII are the runes that were sent.
* `trim_eq_self_iff`: what is trimmed; `trim_ofGo_iff`, of a string that Go has trimmed.
-/

namespace Purels.Js

open Go

/-- A JavaScript string: its UTF-16 code units. -/
abbrev JsString := List UInt16

/-- The code units of a rune. -/
def utf16 (c : Nat) : JsString :=
  if c < 0x10000 then [UInt16.ofNat c]
  else [UInt16.ofNat (0xD800 + (c - 0x10000) / 0x400), UInt16.ofNat (0xDC00 + (c - 0x10000) % 0x400)]

/-- A Go string after `json.Marshal` and `JSON.parse`. -/
def ofGo (s : GoString) : JsString := (runeCodes s).flatMap utf16

/-- The units of a string, as what a regular expression reads. -/
def unitCodes (s : JsString) : List Nat := s.map UInt16.toNat

/-- `WhiteSpace` and `LineTerminator`, what `trim` takes off. -/
def isSpace (c : Nat) : Bool :=
  (0x09 ≤ c && c ≤ 0x0D) || c == 0x20 || c == 0xA0 || c == 0x1680 ||
    (0x2000 ≤ c && c ≤ 0x200A) || c == 0x2028 || c == 0x2029 || c == 0x202F ||
    c == 0x205F || c == 0x3000 || c == 0xFEFF

/-- `trim()`. -/
def trim (s : JsString) : JsString :=
  (s.dropWhile fun c => isSpace c.toNat).rdropWhile fun c => isSpace c.toNat

/-- `replace(/\/+$/, "")`. -/
def stripSlashes (s : JsString) : JsString := s.rdropWhile (· == 0x2F)

example : trim (ofGo (lit " G-1234\t")) = ofGo (lit "G-1234") := by decide

/-! ## What arrives -/

@[simp] theorem ofGo_nil : ofGo [] = [] := rfl

@[simp] theorem unitCodes_nil : unitCodes [] = [] := rfl

@[simp] theorem length_unitCodes (s : JsString) : (unitCodes s).length = s.length :=
  List.length_map _

@[simp] theorem stripSlashes_stripSlashes (s : JsString) :
    stripSlashes (stripSlashes s) = stripSlashes s :=
  List.rdropWhile_idempotent _ _

/-- A unit of ASCII is a rune of its own. -/
theorem utf16_ascii {c : Nat} (h : c < 0x80) : utf16 c = [UInt16.ofNat c] := by
  unfold utf16
  rw [if_pos (by omega)]

theorem ascii_of_utf16 {c : Nat} (hvalid : ValidRune c) (h : ∀ x ∈ utf16 c, x.toNat < 0x80) :
    c < 0x80 := by
  unfold ValidRune at hvalid
  unfold utf16 at h
  split at h
  · have hunit : (UInt16.ofNat c).toNat < 0x80 := h _ List.mem_cons_self
    rw [UInt16.toNat_ofNat'] at hunit
    omega
  · have hunit : (UInt16.ofNat (0xD800 + (c - 0x10000) / 0x400)).toNat < 0x80 :=
      h _ List.mem_cons_self
    rw [UInt16.toNat_ofNat'] at hunit
    omega

/-- Units of ASCII come from runes of ASCII. -/
theorem runeCodes_of_ofGo {s : GoString} (h : ∀ x ∈ ofGo s, x.toNat < 0x80) :
    ∀ c ∈ runeCodes s, c < 0x80 := by
  intro c hc
  obtain ⟨r, hr, rfl⟩ := List.mem_map.mp hc
  apply ascii_of_utf16 (runes_valid hr)
  intro x hx
  exact h x (List.mem_flatMap.mpr ⟨r.code, hc, hx⟩)

/-- Runes of ASCII arrive as they are. -/
theorem unitCodes_ofGo {s : GoString} (h : ∀ c ∈ runeCodes s, c < 0x80) :
    unitCodes (ofGo s) = runeCodes s := by
  unfold ofGo unitCodes
  generalize runeCodes s = codes at h ⊢
  induction codes with
  | nil => rfl
  | cons c cs ih =>
    have hc : c < 0x80 := h c List.mem_cons_self
    rw [List.flatMap_cons, utf16_ascii hc, List.map_append,
      ih fun d hd => h d (List.mem_cons_of_mem _ hd)]
    rw [List.map_singleton, UInt16.toNat_ofNat', Nat.mod_eq_of_lt (by omega)]
    rfl

/-- Nothing arrives only when nothing is sent. -/
theorem ofGo_eq_nil {s : GoString} (h : ofGo s = []) : s = [] := by
  have hascii : ∀ c ∈ runeCodes s, c < 0x80 := by
    apply runeCodes_of_ofGo
    rw [h]
    exact List.forall_mem_nil _
  have hcodes := unitCodes_ofGo hascii
  rw [h, (ascii_of_runeCodes hascii).2] at hcodes
  exact List.map_eq_nil_iff.mp hcodes.symm

/-! ## White space -/

/-- What is trimmed begins with no white space. -/
theorem trim_head {s : JsString} {c : UInt16} (h : c ∈ (trim s).head?) :
    isSpace c.toNat = false := by
  set l := s.dropWhile fun c => isSpace c.toNat with hl
  have hfirst : c ∈ l.head? := by
    obtain ⟨t, ht⟩ := List.rdropWhile_prefix (fun c : UInt16 => isSpace c.toNat) l
    have htrim : trim s = l.rdropWhile fun c => isSpace c.toNat := rfl
    rw [htrim] at h
    cases hx : l.rdropWhile fun c => isSpace c.toNat with
    | nil =>
      rw [hx] at h
      cases h
    | cons x xs =>
      rw [hx] at h ht
      rw [← ht]
      exact h
  cases hx : l with
  | nil =>
    rw [hx] at hfirst
    cases hfirst
  | cons x xs =>
    rw [hx] at hfirst
    obtain rfl : x = c := Option.some.inj hfirst
    have hnot := List.head_dropWhile_not (fun c : UInt16 => isSpace c.toNat) (l := s)
      (by rw [← hl, hx]; exact List.cons_ne_nil _ _)
    simpa only [← hl, hx, List.head_cons, Bool.not_eq_true] using hnot

/-- Nor does it end with any. -/
theorem trim_getLast {s : JsString} {c : UInt16} (h : c ∈ (trim s).getLast?) :
    isSpace c.toNat = false := by
  obtain ⟨hne, rfl⟩ := List.mem_getLast?_eq_getLast h
  exact Bool.not_eq_true _ ▸ List.rdropWhile_last_not _ _ hne

/-- A string is trimmed when there is no white space at its ends. -/
theorem trim_eq_self {s : JsString} (hhead : ∀ c ∈ s.head?, isSpace c.toNat = false)
    (hlast : ∀ c ∈ s.getLast?, isSpace c.toNat = false) : trim s = s := by
  have hfirst : (s.dropWhile fun c => isSpace c.toNat) = s := by
    rw [List.dropWhile_eq_self_iff]
    intro hl
    rw [hhead s[0] (by rw [List.head?_eq_getElem?, List.getElem?_eq_getElem hl]; rfl)]
    exact Bool.false_ne_true
  rw [trim, hfirst, List.rdropWhile_eq_self_iff]
  intro hne
  rw [hlast _ (List.getLast?_eq_some_getLast hne)]
  exact Bool.false_ne_true

theorem trim_eq_self_iff {s : JsString} :
    trim s = s ↔ (∀ c ∈ s.head?, isSpace c.toNat = false) ∧
      ∀ c ∈ s.getLast?, isSpace c.toNat = false := by
  constructor
  · intro h
    rw [← h]
    exact ⟨fun c hc => trim_head hc, fun c hc => trim_getLast hc⟩
  · intro h
    exact trim_eq_self h.1 h.2

@[simp] theorem trim_trim (s : JsString) : trim (trim s) = trim s :=
  trim_eq_self (fun _ h => trim_head h) fun _ h => trim_getLast h

theorem trim_subset (s : JsString) : trim s ⊆ s := fun _ h =>
  (List.dropWhile_suffix _).subset (( List.rdropWhile_prefix _ _).subset h)

/-- Visible units are not white space. -/
theorem trim_visible {s : JsString} (h : ∀ c ∈ unitCodes s, 0x21 ≤ c ∧ c ≤ 0x7E) : trim s = s := by
  have hnot : ∀ x ∈ s, isSpace x.toNat = false := by
    intro x hx
    have hcode := h x.toNat (List.mem_map_of_mem hx)
    simp only [isSpace, Bool.or_eq_false_iff, Bool.and_eq_false_iff, decide_eq_false_iff_not,
      beq_eq_false_iff_ne]
    omega
  exact trim_eq_self (fun x hx => hnot x (List.mem_of_mem_head? hx))
    fun x hx => hnot x (List.mem_of_mem_getLast? hx)

/-- A unit of a rune is white space in JavaScript when the rune is one in Go other than
`U+0085`, or the byte order mark. -/
theorem isSpace_utf16 {c : Nat} (hc : ValidRune c) {x : UInt16} (h : x ∈ utf16 c) :
    isSpace x.toNat ↔ Go.isSpace c ∧ c ≠ 0x85 ∨ c = 0xFEFF := by
  unfold ValidRune at hc
  simp only [isSpace, Go.isSpace, Bool.or_eq_true, Bool.and_eq_true, decide_eq_true_eq,
    beq_iff_eq]
  unfold utf16 at h
  split at h
  · rw [List.mem_singleton] at h
    have hx : x.toNat = c := by
      rw [h, UInt16.toNat_ofNat']
      omega
    omega
  · -- halves of a pair are not white space, and neither are the runes that need one
    have hx : 0xD800 ≤ x.toNat ∧ x.toNat < 0xE000 := by
      rcases List.mem_cons.mp h with hhigh | hlow
      · rw [hhigh, UInt16.toNat_ofNat']
        omega
      · rw [List.mem_singleton] at hlow
        rw [hlow, UInt16.toNat_ofNat']
        omega
    omega

theorem utf16_ne_nil (c : Nat) : utf16 c ≠ [] := by
  unfold utf16
  split
  · exact List.cons_ne_nil _ _
  · exact List.cons_ne_nil _ _

/-- A unit of ASCII arrives when it is sent. -/
theorem mem_ofGo_iff {b : UInt8} (hb : b.toNat < 0x80) {s : GoString} :
    b.toUInt16 ∈ ofGo s ↔ b ∈ s := by
  constructor
  · intro h
    obtain ⟨c, hc, hunit⟩ := List.mem_flatMap.mp h
    have hcode : c = b.toNat := by
      obtain ⟨r, hr, rfl⟩ := List.mem_map.mp hc
      have hvalid := runes_valid hr
      unfold ValidRune at hvalid
      unfold utf16 at hunit
      split at hunit
      · rw [List.mem_singleton, ← UInt16.toNat_inj, UInt16.toNat_ofNat',
          UInt8.toNat_toUInt16] at hunit
        omega
      · simp only [List.mem_cons, List.not_mem_nil, or_false, ← UInt16.toNat_inj,
          UInt16.toNat_ofNat', UInt8.toNat_toUInt16] at hunit
        omega
    rw [hcode] at hc
    exact mem_of_mem_runeCodes hb hc
  · intro h
    refine List.mem_flatMap.mpr ⟨b.toNat, mem_runeCodes_of_mem hb h, ?_⟩
    rw [utf16_ascii hb, List.mem_singleton, ← UInt16.toNat_inj, UInt16.toNat_ofNat',
      UInt8.toNat_toUInt16]
    omega

/-- The first unit is one of the first rune. -/
theorem head?_ofGo (s : GoString) :
    (ofGo s).head? = (runeCodes s).head?.bind fun c => (utf16 c).head? := by
  unfold ofGo
  cases runeCodes s with
  | nil => rfl
  | cons c cs =>
    rw [List.flatMap_cons, List.head?_append_of_ne_nil _ (utf16_ne_nil c)]
    rfl

/-- The last unit is one of the last rune. -/
theorem getLast?_ofGo (s : GoString) :
    (ofGo s).getLast? = (runeCodes s).getLast?.bind fun c => (utf16 c).getLast? := by
  unfold ofGo
  rcases List.eq_nil_or_concat (runeCodes s) with hnil | ⟨cs, c, hconcat⟩
  · rw [hnil]
    rfl
  · rw [hconcat, List.concat_eq_append, List.flatMap_append, List.flatMap_singleton,
      List.getLast?_concat, List.getLast?_append_of_ne_nil _ (utf16_ne_nil c)]
    rfl

/-- A unit of a rune that is not white space in Go. -/
theorem not_isSpace_utf16 {c : Nat} (hc : ValidRune c) (hspace : Go.isSpace c = false)
    {x : UInt16} (hx : x ∈ utf16 c) : isSpace x.toNat = false ↔ c ≠ 0xFEFF := by
  rw [← Bool.not_eq_true, isSpace_utf16 hc hx, hspace]
  simp

/-- A text that is trimmed in Go stays as it is in JavaScript, but for a byte order mark at an
end. -/
theorem trim_ofGo_iff {s : GoString} (htrim : trimSpace s = s) :
    trim (ofGo s) = ofGo s ↔
      (runeCodes s).head? ≠ some 0xFEFF ∧ (runeCodes s).getLast? ≠ some 0xFEFF := by
  have hhead : ∀ r ∈ (runes s).head?, Go.isSpace r.code = false := by
    rw [← htrim]
    exact fun r hr => trimSpace_head hr
  have hlast : ∀ r ∈ (runes s).getLast?, Go.isSpace r.code = false := by
    rw [← htrim]
    exact fun r hr => trimSpace_getLast hr
  rw [trim_eq_self_iff, head?_ofGo, getLast?_ofGo, runeCodes, List.head?_map, List.getLast?_map]
  refine and_congr ?_ ?_
  · cases hfirst : (runes s).head? with
    | none => simp
    | some r =>
      obtain ⟨x, hx⟩ : ∃ x, (utf16 r.code).head? = some x :=
        ⟨_, List.head?_eq_some_head (utf16_ne_nil r.code)⟩
      rw [Option.map_some, Option.bind_some, hx]
      simp only [Option.mem_def, Option.some.injEq, forall_eq', ne_eq]
      exact not_isSpace_utf16 (runes_valid (List.mem_of_mem_head? hfirst)) (hhead r hfirst)
        (List.mem_of_mem_head? hx)
  · cases hend : (runes s).getLast? with
    | none => simp
    | some r =>
      obtain ⟨x, hx⟩ : ∃ x, (utf16 r.code).getLast? = some x :=
        ⟨_, List.getLast?_eq_some_getLast (utf16_ne_nil r.code)⟩
      rw [Option.map_some, Option.bind_some, hx]
      simp only [Option.mem_def, Option.some.injEq, forall_eq', ne_eq]
      exact not_isSpace_utf16 (runes_valid (List.mem_of_mem_getLast? hend)) (hlast r hend)
        (List.mem_of_mem_getLast? hx)

end Purels.Js
