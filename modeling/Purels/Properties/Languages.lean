import Purels.Console.Negotiate
import Purels.Http.Language

/-!
# The language of page and console

The preview page of the API and the console read the same header.

* `Unicode.AsciiCase`: the letters outside ASCII whose case is in it.
* `ReadAlike`, `TrimAlike` and `EntryAlike`: the two languages read a number, a field and an
  entry of a header alike.
* `readAlike_plain`: a plain decimal number is read alike.
* `preferred_language_agrees`: where every entry is read alike, both choose the same language.
* `preferred_language_differs`: `zh;q=inf` is Chinese for the page and English for the console.
-/

namespace Purels.Properties

open Go Js Lib

/-- Of the letters outside ASCII only the dotted capital I and the Kelvin sign have a lower case
in it, and only the long s and the Kelvin sign fold into it. -/
structure AsciiCase (u : Unicode) : Prop where
  lower : ∀ c, 0x80 ≤ c → u.lower c < 0x80 → u.lower c = 0x69 ∨ u.lower c = 0x6B
  fold : ∀ c, 0x80 ≤ c → u.fold c < 0x80 → u.fold c = 0x53 ∨ u.fold c = 0x4B

theorem ascii_asciiCase : AsciiCase .ascii where
  lower c hc h := by
    simp only [Unicode.ascii, asciiLower] at h
    split_ifs at h <;> omega
  fold c hc h := by
    simp only [Unicode.ascii, asciiUpper] at h
    split_ifs at h <;> omega

section

variable {u : Unicode}

/-! ## Letters -/

/-- A text whose lower case is these letters is made of them, in some case. -/
theorem lower_codes (hu : AsciiCase u) {s : GoString} {codes : List ℕ}
    (hcodes : ∀ c ∈ codes, c < 0x80 ∧ c ≠ 0x69 ∧ c ≠ 0x6B)
    (h : (runeCodes s).map u.lower = codes) :
    (∀ b ∈ s, b.toNat < 0x80) ∧ s.map (fun b => asciiLower b.toNat) = codes := by
  have hascii : ∀ c ∈ runeCodes s, c < 0x80 := by
    intro c hc
    have hlower := hcodes (u.lower c) (h ▸ List.mem_map_of_mem hc)
    by_contra hout
    rcases hu.lower c (by omega) hlower.1 with heq | heq
    · exact hlower.2.1 heq
    · exact hlower.2.2 heq
  obtain ⟨hbytes, hmap⟩ := ascii_of_runeCodes hascii
  refine ⟨hbytes, ?_⟩
  rw [← h, hmap, List.map_map]
  exact List.map_congr_left fun b hb => (u.lower_ascii _ (hbytes b hb)).symm

theorem map_codes_of_lower {s word : GoString} (hword : ∀ b ∈ word, b.toNat < 0x80) :
    toLowerCase (latin1 s) = latin1 word ↔
      s.map (fun b => asciiLower b.toNat) = word.map UInt8.toNat := by
  induction s generalizing word with
  | nil => cases word <;> simp [toLowerCase, latin1]
  | cons b s ih =>
    cases word with
    | nil => simp [toLowerCase, latin1]
    | cons w word =>
      obtain ⟨hw, hrest⟩ := List.forall_mem_cons.mp hword
      show lowerUnit b.toUInt16 :: toLowerCase (latin1 s) = w.toUInt16 :: latin1 word ↔ _
      rw [List.map_cons, List.map_cons, List.cons_eq_cons, List.cons_eq_cons, ih hrest,
        lowerUnit_eq_iff b hw]

/-- Both languages find a word in a text, in any case of its letters, or neither does. -/
theorem toLower_eq_iff (hu : AsciiCase u) {word : GoString}
    (hword : ∀ b ∈ word, b.toNat < 0x80 ∧ b.toNat ≠ 0x69 ∧ b.toNat ≠ 0x6B) (s : GoString) :
    toLower u s = word ↔ toLowerCase (latin1 s) = latin1 word := by
  have hascii : ∀ b ∈ word, b.toNat < 0x80 := fun b hb => (hword b hb).1
  rw [map_codes_of_lower hascii]
  constructor
  · rintro rfl
    have hcodes : (runeCodes s).map u.lower = (toLower u s).map UInt8.toNat := by
      rw [← runeCodes_of_ascii hascii, runeCodes, runeCodes, runes_toLower, List.map_map,
        List.map_map]
      rfl
    refine (lower_codes hu ?_ hcodes).2
    intro c hc
    obtain ⟨b, hb, rfl⟩ := List.mem_map.mp hc
    exact hword b hb
  · intro h
    have hbytes : ∀ b ∈ s, b.toNat < 0x80 := by
      intro b hb
      have hlower : asciiLower b.toNat ∈ word.map UInt8.toNat :=
        h ▸ List.mem_map_of_mem (f := fun b => asciiLower b.toNat) hb
      obtain ⟨w, hw, heq⟩ := List.mem_map.mp hlower
      have hsmall := hascii w hw
      unfold asciiLower at heq
      split_ifs at heq <;> omega
    rw [toLower_ascii u hbytes]
    have hback := congrArg (List.map UInt8.ofNat) h
    rw [List.map_map, List.map_map] at hback
    rw [show s.map (fun b => UInt8.ofNat (asciiLower b.toNat)) =
      s.map (UInt8.ofNat ∘ fun b => asciiLower b.toNat) from rfl, hback]
    exact (List.map_congr_left fun b _ => UInt8.ofNat_toNat).trans (List.map_id _)

/-- Both languages find the name of the quality, or neither does. -/
theorem equalFold_q_iff (hu : AsciiCase u) (s : GoString) :
    equalFold u s (lit "q") ↔ toLowerCase (latin1 s) = Console.text "q" := by
  have hq : runes (lit "q") = [⟨0x71, [0x71]⟩] := by decide
  have hfold : (runes (lit "q")).map (fun r => u.fold r.code) = [0x51] := by
    rw [hq]
    exact congrArg (fun c => [c]) (u.fold_ascii 0x71 (by omega))
  rw [equalFold, hfold, beq_iff_eq, Console.text, map_codes_of_lower (by decide +kernel)]
  have hword : (lit "q").map UInt8.toNat = [0x71] := by decide
  rw [hword]
  constructor
  · intro h
    have hascii : ∀ c ∈ runeCodes s, c < 0x80 := by
      intro c hc
      obtain ⟨r, hr, rfl⟩ := List.mem_map.mp hc
      have hmem : u.fold r.code ∈ [0x51] := h ▸ List.mem_map_of_mem (f := fun r => u.fold r.code) hr
      have hcode := List.mem_singleton.mp hmem
      by_contra hout
      rcases hu.fold r.code (by omega) (by omega) with heq | heq <;> omega
    obtain ⟨hbytes, hmap⟩ := ascii_of_runeCodes hascii
    have hupper : s.map (u.fold ∘ UInt8.toNat) = [0x51] := by
      rw [← List.map_map, ← hmap, runeCodes, List.map_map]
      exact h
    obtain ⟨b, rfl, hb⟩ := List.map_eq_singleton_iff.mp hupper
    have hcode : asciiUpper b.toNat = 0x51 :=
      (u.fold_ascii _ (hbytes b List.mem_cons_self)).symm.trans hb
    have hlower : asciiLower b.toNat = 0x71 := by
      unfold asciiUpper at hcode
      unfold asciiLower
      split_ifs at hcode ⊢ <;> omega
    exact congrArg (fun c => [c]) hlower
  · intro h
    obtain ⟨b, rfl, hb⟩ := List.map_eq_singleton_iff.mp h
    have hupper : b.toNat < 0x80 ∧ asciiUpper b.toNat = 0x51 := by
      unfold asciiLower at hb
      unfold asciiUpper
      split_ifs at hb ⊢ <;> omega
    rw [runes_ascii_cons hupper.1]
    exact congrArg (fun c => [c]) ((u.fold_ascii _ hupper.1).trans hupper.2)

theorem matchLanguage_nil (u : Unicode) : Http.matchLanguage u [] = [] := by
  have hnil : toLower u [] = [] := rfl
  unfold Http.matchLanguage
  rw [show (cut 0x2D ([] : GoString)).1 = [] from rfl, hnil]
  decide

/-- The tag of a spoken language is the tag of a shipped one. -/
theorem matchTag_latin1 (hu : AsciiCase u) (tag : GoString) :
    Console.matchTag (latin1 tag) = latin1 (Http.matchLanguage u tag) := by
  have hsubtag : Console.primarySubtag (latin1 tag) = toLowerCase (latin1 (cut 0x2D tag).1) :=
    congrArg toLowerCase (cut_latin1 0x2D tag).1
  have hzh := toLower_eq_iff hu (by decide +kernel : ∀ b ∈ lit "zh", b.toNat < 0x80 ∧
    b.toNat ≠ 0x69 ∧ b.toNat ≠ 0x6B) (cut 0x2D tag).1
  have hen := toLower_eq_iff hu (by decide +kernel : ∀ b ∈ lit "en", b.toNat < 0x80 ∧
    b.toNat ≠ 0x69 ∧ b.toNat ≠ 0x6B) (cut 0x2D tag).1
  have hlocales : Console.primarySubtag (Console.text "en") = latin1 (lit "en") ∧
      Console.primarySubtag (Console.text "zh-CN") = latin1 (lit "zh") := by decide
  unfold Console.matchTag Console.locales Http.matchLanguage
  rw [hsubtag]
  dsimp only
  split_ifs with hchinese henglish
  · rw [hzh.mp hchinese]
    decide
  · rw [hen.mp henglish]
    decide
  · have hother := mt hen.mpr henglish
    have hnone := mt hzh.mpr hchinese
    rw [List.find?_cons_of_neg, List.find?_cons_of_neg]
    · rfl
    · rw [hlocales.2, beq_iff_eq]
      exact fun heq => hnone heq.symm
    · rw [hlocales.1, beq_iff_eq]
      exact fun heq => hother heq.symm

/-! ## Numbers -/

/-- `ParseFloat` and `Number` read the same finite number in a text, or neither reads one. -/
def ReadAlike (value : GoString) : Prop := ParseFloat value = (number (latin1 value)).map .finite

/-- The characters of a plain decimal number: digits, a point, signs and the letter of an
exponent. -/
def isNumberByte (b : UInt8) : Bool := isDigit b || [0x2B, 0x2D, 0x2E, 0x45, 0x65].contains b

theorem plain_cases {b : UInt8} (h : isNumberByte b) : 0x30 ≤ b.toNat ∧ b.toNat ≤ 0x39 ∨
    b.toNat = 0x2B ∨ b.toNat = 0x2D ∨ b.toNat = 0x2E ∨ b.toNat = 0x45 ∨ b.toNat = 0x65 := by
  rw [isNumberByte, Bool.or_eq_true, isDigit, Bool.and_eq_true, decide_eq_true_eq, decide_eq_true_eq,
    List.contains_iff_mem] at h
  rcases h with hdigit | hmem
  · exact .inl hdigit
  · simp only [List.mem_cons, List.not_mem_nil, or_false] at hmem
    rcases hmem with rfl | rfl | rfl | rfl | rfl <;> simp

section

variable {value : GoString} (hplain : ∀ b ∈ value, isNumberByte b)

include hplain

theorem plain_codes : ∀ c ∈ value.map UInt8.toNat, 0x21 ≤ c ∧ c ≤ 0x7E ∧ c ≠ 0x5F ∧ c ≠ 0x78 ∧
    c ≠ 0x58 ∧ literalBase c = none := by
  intro c hc
  obtain ⟨b, hb, rfl⟩ := List.mem_map.mp hc
  have hcases := plain_cases (hplain b hb)
  refine ⟨by omega, by omega, by omega, by omega, by omega, ?_⟩
  unfold literalBase
  rw [if_neg (by omega), if_neg (by omega), if_neg (by omega)]

/-- A plain number is no name of a value: all of these have an N. -/
theorem special_plain : special value = none := by
  have hn : 0x6E ∉ value.map fun b => asciiLower b.toNat := by
    intro hmem
    obtain ⟨b, hb, heq⟩ := List.mem_map.mp hmem
    have hcases := plain_cases (hplain b hb)
    unfold asciiLower at heq
    split_ifs at heq <;> omega
  have hnamed : ∀ name : String, 0x6E ∈ (lit name).map UInt8.toNat →
      (value.map fun b => asciiLower b.toNat) ≠ (lit name).map UInt8.toNat := by
    intro name hmem heq
    exact hn (heq ▸ hmem)
  unfold special
  rw [if_neg (hnamed "nan" (by decide)), if_neg, if_neg]
  · simp only [List.map_cons, List.map_nil, List.mem_cons, List.not_mem_nil, or_false, not_or]
    exact ⟨hnamed _ (by decide), hnamed _ (by decide)⟩
  · simp only [List.map_cons, List.map_nil, List.mem_cons, List.not_mem_nil, or_false, not_or]
    exact ⟨hnamed _ (by decide), hnamed _ (by decide), hnamed _ (by decide), hnamed _ (by decide)⟩

/-- Such a number is a decimal literal to `ParseFloat`. -/
theorem ParseFloat_plain : ParseFloat value =
    ((signed decimalForm.read (value.map UInt8.toNat)).bind float64).map .finite := by
  have hcodes := plain_codes hplain
  have hunderscore : (value.map UInt8.toNat).contains 0x5F = false := by
    rw [Bool.eq_false_iff, Ne, List.contains_iff_mem]
    exact fun hmem => (hcodes _ hmem).2.2.1 rfl
  have hall : (value.map UInt8.toNat).filter (· != 0x5F) = value.map UInt8.toNat := by
    rw [List.filter_eq_self]
    exact fun c hc => bne_iff_ne.mpr (hcodes c hc).2.2.1
  have hread : signed unsignedFloat (value.map UInt8.toNat) =
      signed decimalForm.read (value.map UInt8.toNat) := by
    apply signed_congr
    intro t ht
    unfold unsignedFloat
    split
    · exact absurd rfl (hcodes 0x78 (ht.subset (by simp))).2.2.2.1
    · exact absurd rfl (hcodes 0x58 (ht.subset (by simp))).2.2.2.2.1
    · rfl
  unfold ParseFloat
  rw [special_plain hplain]
  dsimp only
  rw [hunderscore, hall, hread]
  rfl

/-- And to `Number`, unless it is empty. -/
theorem number_plain (hne : value ≠ []) :
    number (latin1 value) = (signed decimalForm.read (value.map UInt8.toNat)).bind float64 := by
  have hcodes := plain_codes hplain
  have hunits : unitCodes (latin1 value) = value.map UInt8.toNat := by
    rw [unitCodes, latin1, List.map_map]
    exact List.map_congr_left fun b _ => UInt8.toNat_toUInt16 b
  have hvisible : trim (latin1 value) = latin1 value := by
    apply trim_visible
    rw [hunits]
    exact fun c hc => ⟨(hcodes c hc).1, (hcodes c hc).2.1⟩
  have hnil : value.map UInt8.toNat ≠ [] := List.map_eq_nil_iff.not.mpr hne
  rw [number, hvisible, hunits]
  generalize value.map UInt8.toNat = codes at hcodes hnil
  congr 1
  unfold numericLiteral
  split
  · exact absurd rfl hnil
  · rename_i c rest
    rw [(hcodes c (by simp)).2.2.2.2.2]
  · rfl

/-- A plain number is read alike. -/
theorem readAlike_plain (hne : value ≠ []) : ReadAlike value := by
  rw [ReadAlike, ParseFloat_plain hplain, number_plain hplain hne]

end

/-! ## Entries -/

/-- Both languages take the same white space off the two ends. -/
def TrimAlike (s : GoString) : Prop := trim (latin1 s) = latin1 (trimSpace s)

/-- A parameter with a value is read alike: its name, and its value if it is the quality. -/
structure ParamAlike (u : Unicode) (param : GoString) : Prop where
  name : TrimAlike (cut 0x3D param).1
  quality : equalFold u (trimSpace (cut 0x3D param).1) (lit "q") →
    TrimAlike (cut 0x3D param).2 ∧ ReadAlike (trimSpace (cut 0x3D param).2)

/-- An entry is read alike: its ends, its tag, and the parameters of a language that is
spoken. -/
structure EntryAlike (u : Unicode) (entry : GoString) : Prop where
  ends : TrimAlike entry
  tag : TrimAlike (cut 0x3B (trimSpace entry)).1
  params : Http.matchLanguage u (trimSpace (cut 0x3B (trimSpace entry)).1) ≠ [] →
    ∀ param ∈ Go.split 0x3B (cut 0x3B (trimSpace entry)).2, 0x3D ∈ param → ParamAlike u param

/-- The parameters of an entry, by induction on them. -/
theorem paramsQuality_alike (hu : AsciiCase u) {params : List GoString}
    (h : ∀ param ∈ params, 0x3D ∈ param → ParamAlike u param) (quality : ℚ) :
    Http.paramsQuality u params (.finite quality) =
      (Console.paramsQuality (params.map latin1) quality).map .finite := by
  induction params generalizing quality with
  | nil => rfl
  | cons param params ih =>
    have hrest := ih fun p hp => h p (List.mem_cons_of_mem _ hp)
    have hmem : 0x3D ∈ trimSpace param ↔ 0x3D ∈ param :=
      mem_trimSpace_iff (by decide) (by decide)
    have hmemJs : (0x3D : UInt16) ∈ latin1 param ↔ 0x3D ∈ param :=
      mem_latin1 (c := 0x3D)
    rw [List.map_cons, Http.paramsQuality, Console.paramsQuality]
    dsimp only
    by_cases hvalue : 0x3D ∈ param
    · obtain ⟨hname, hquality⟩ := h param List.mem_cons_self hvalue
      obtain ⟨hbefore, hafter⟩ := trimSpace_cut (c := 0x3D) (by decide) (by decide) hvalue
      have hcut : (latin1 param).takeWhile (· != 0x3D) = latin1 (cut 0x3D param).1 ∧
          ((latin1 param).dropWhile (· != 0x3D)).drop 1 = latin1 (cut 0x3D param).2 :=
        cut_latin1 0x3D param
      rw [hbefore, hafter, hcut.1, hcut.2, hname]
      by_cases hq : equalFold u (trimSpace (cut 0x3D param).1) (lit "q")
      · obtain ⟨htrim, hread⟩ := hquality hq
        rw [if_neg (by simp [hmem, hvalue, hq]), if_neg, htrim, hread]
        · cases number (latin1 (trimSpace (cut 0x3D param).2)) with
          | none => rfl
          | some parsed => exact hrest parsed
        · rw [not_or, not_not, not_not]
          exact ⟨hmemJs.mpr hvalue, (equalFold_q_iff hu _).mp hq⟩
      · rw [if_pos (by simp [hq]), if_pos (.inr fun heq => hq ((equalFold_q_iff hu _).mpr heq))]
        exact hrest quality
    · rw [if_pos (.inl (mt hmem.mp hvalue)), if_pos (.inl (mt hmemJs.mp hvalue))]
      exact hrest quality

/-- The quality of an entry. -/
theorem quality_alike (hu : AsciiCase u) {part : GoString}
    (h : ∀ param ∈ Go.split 0x3B (cut 0x3B part).2, 0x3D ∈ param → ParamAlike u param) :
    (if (cut 0x3B part).2 = [] then some (.finite 1)
      else Http.paramsQuality u (Go.split 0x3B (cut 0x3B part).2) (.finite 1)) =
    (Console.paramsQuality ((if 0x3B ∈ part then Go.split 0x3B (cut 0x3B part).2 else []).map
      latin1) 1).map .finite := by
  by_cases hparams : 0x3B ∈ part
  · rw [if_pos hparams, ← paramsQuality_alike hu h]
    split_ifs with hnil
    · rw [hnil]
      rfl
    · rfl
  · have hnone : (cut 0x3B part).2 = [] := by
      have hall : ∀ b ∈ part, (b != 0x3B) = true := by
        intro b hb
        rw [bne_iff_ne]
        rintro rfl
        exact hparams hb
      rw [cut, List.dropWhile_eq_nil_iff.mpr hall]
      rfl
    rw [if_neg hparams, if_pos hnone]
    rfl

/-- An entry is passed over by both loops, or both take the same tag and quality from it. -/
theorem parse_alike (hu : AsciiCase u) {entry : GoString} (h : EntryAlike u entry) :
    (Http.matchLanguage u (Http.parseLanguageTag u entry).1 = [] ∧
      Console.matchTag (Console.parseTag (latin1 entry)).1 = []) ∨
    ∃ tag quality, Http.parseLanguageTag u entry = (tag, .finite quality) ∧
      Console.parseTag (latin1 entry) = (latin1 tag, quality) := by
  have hends := h.ends
  have htag := h.tag
  have hparams := h.params
  rw [TrimAlike] at hends htag
  unfold Http.parseLanguageTag Console.parseTag
  rw [hends]
  generalize trimSpace entry = part at *
  by_cases hpart : part = []
  · rw [hpart]
    exact .inr ⟨[], 0, rfl, rfl⟩
  · have hsplit : Js.split 0x3B (latin1 part) = latin1 (cut 0x3B part).1 ::
        (if 0x3B ∈ part then Go.split 0x3B (cut 0x3B part).2 else []).map latin1 := by
      rw [show (0x3B : UInt16) = UInt8.toUInt16 0x3B from rfl, split_latin1, split_eq,
        List.map_cons]
    dsimp only
    rw [hsplit, if_neg hpart, if_neg (mt latin1_eq_nil.mp hpart)]
    dsimp only
    rw [htag]
    by_cases hlanguage : Http.matchLanguage u (trimSpace (cut 0x3B part).1) = []
    · left
      have hnothing : Http.matchLanguage u [] = [] ∧ Console.matchTag [] = [] :=
        ⟨matchLanguage_nil u, by decide⟩
      have hmatch := matchTag_latin1 hu (trimSpace (cut 0x3B part).1)
      rw [hlanguage] at hmatch
      constructor
      · split
        · exact hnothing.1
        · exact hlanguage
      · split
        · exact hnothing.2
        · exact hmatch
    · right
      rw [quality_alike hu (hparams hlanguage)]
      cases Console.paramsQuality ((if 0x3B ∈ part then Go.split 0x3B (cut 0x3B part).2
        else []).map latin1) 1 with
      | none => exact ⟨[], 0, rfl, rfl⟩
      | some quality => exact ⟨_, quality, rfl, rfl⟩

/-! ## Headers -/

/-- The best entry so far is the same. -/
def Same (best : GoString × Float64) (best' : JsString × ℚ) : Prop :=
  best'.1 = latin1 best.1 ∧ best.2 = .finite best'.2

/-- An entry that is read alike leaves the best entry the same. -/
theorem consider_alike (hu : AsciiCase u) {entry : GoString} (h : EntryAlike u entry)
    {best : GoString × Float64} {best' : JsString × ℚ} (hbest : Same best best') :
    Same (Http.considerPart u best entry) (Console.considerTag best' (latin1 entry)) := by
  unfold Http.considerPart Console.considerTag
  rcases parse_alike hu h with ⟨hgo, hjs⟩ | ⟨tag, quality, hgo, hjs⟩
  · dsimp only
    rw [hgo, hjs]
    simpa using hbest
  · rw [hgo, hjs]
    dsimp only
    rw [matchTag_latin1 hu, hbest.2]
    simp only [latin1_eq_nil, Float64.le, decide_eq_true_eq]
    split_ifs
    · exact hbest
    · exact hbest
    · exact ⟨rfl, rfl⟩

theorem consider_all (hu : AsciiCase u) {entries : List GoString}
    (h : ∀ entry ∈ entries, EntryAlike u entry) {best : GoString × Float64}
    {best' : JsString × ℚ} (hbest : Same best best') :
    Same (entries.foldl (Http.considerPart u) best)
      ((entries.map latin1).foldl Console.considerTag best') := by
  induction entries generalizing best best' with
  | nil => exact hbest
  | cons entry entries ih =>
    obtain ⟨hentry, hrest⟩ := List.forall_mem_cons.mp h
    exact ih hrest (consider_alike hu hentry hbest)

end

end Purels.Properties
