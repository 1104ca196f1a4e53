import Mathlib.Data.List.Dedup
import Purels.Go.Csv
import Purels.Service.Csv
import Purels.Service.LinkSpecs

/-!
# What the importer reads back

An exported row as the CSV reader and the importer see it again.

* `TagStored`, `RowStored`: what the service leaves in the tables.
* `splitTags_join`: the tags of a link come back from their cell.
* `NormalizeTags_stored`: stored tags are normalized, and too many are refused.
* `importedRow`: the request that an exported row makes.
-/

namespace Purels.Service

open Go Security Store LinkStore

/-! ## Stored values -/

/-- A byte of an alias. -/
def isAliasByte (c : UInt8) : Bool := isAsciiLetter c || isDigit c || c == 0x5F || c == 0x2D

section

variable (u : Unicode)

/-- A tag as the service stores it. -/
structure TagStored (name : GoString) : Prop where
  folded : toLower u name = name
  form : tagPattern u name
  short : (runes name).length ≤ maxTagLength
  storable : storableTag name

/-- The columns of a row as the service stores them, under a denylist. -/
structure RowStored (denylist : List GoString) (row : LinkRow) : Prop where
  alias_ne : row.aliasName ≠ []
  alias_bytes : ∀ c ∈ row.aliasName, isAliasByte c
  alias_fits : storableText row.aliasName ∧ (runes row.aliasName).length ≤ 64
  destination : checkDestination u denylist row.destinationURL = .ok ()
  destination_fits :
    storableText row.destinationURL ∧ (runes row.destinationURL).length ≤ 8192
  title : NormalizeTitle row.title = .ok row.title
  title_fits : storableText row.title ∧ (runes row.title).length ≤ 255
  redirectCode : row.redirectCode = 301 ∨ row.redirectCode = 302
  delay : 0 ≤ row.interstitialSeconds ∧ row.interstitialSeconds ≤ MaxInterstitialSeconds

end

/-! ## Aliases -/

/-- A digit of a generated alias. -/
theorem isAliasByte_alphabet {i : Nat} (h : i < 62) : isAliasByte (alphabet.getD i 0) := by
  have hall : ∀ k : Fin 62, isAliasByte (alphabet.getD k.val 0) = true := by decide +kernel
  exact hall ⟨i, h⟩

theorem base36Digits_spec (room value : Nat) {digits : GoString}
    (h : ∀ c ∈ digits, isAliasByte c) :
    (∀ c ∈ base36Digits room value digits, isAliasByte c) ∧
      (digits ≠ [] → base36Digits room value digits ≠ []) := by
  induction room generalizing value digits with
  | zero => exact ⟨h, fun hne => hne⟩
  | succ room ih =>
    rw [base36Digits]
    split_ifs
    · exact ⟨h, fun hne => hne⟩
    · have hdigit : isAliasByte (alphabet.getD (value % 36) 0) :=
        isAliasByte_alphabet (by omega)
      obtain ⟨hbytes, hne⟩ := ih (value / 36) (List.forall_mem_cons.mpr ⟨hdigit, h⟩)
      exact ⟨hbytes, fun _ => hne (List.cons_ne_nil _ _)⟩

theorem EncodeBase36_spec (value : Nat) :
    EncodeBase36 value ≠ [] ∧ ∀ c ∈ EncodeBase36 value, isAliasByte c := by
  unfold EncodeBase36
  split_ifs with hzero
  · exact ⟨by decide, by decide +kernel⟩
  · have hdigit : isAliasByte (alphabet.getD (value % 36) 0) := isAliasByte_alphabet (by omega)
    obtain ⟨hbytes, hne⟩ := base36Digits_spec 12 (value / 36)
      (List.forall_mem_cons.mpr ⟨hdigit, List.forall_mem_nil _⟩)
    rw [base36Digits, if_neg hzero]
    exact ⟨hne (List.cons_ne_nil _ _), hbytes⟩

theorem randomString_spec {bytes : List UInt8} (hbytes : bytes ≠ []) :
    randomString bytes ≠ [] ∧ ∀ c ∈ randomString bytes, isAliasByte c := by
  have hlength : alphabet.length = 62 := by decide
  refine ⟨fun hnil => hbytes (List.map_eq_nil_iff.mp hnil), fun c hc => ?_⟩
  obtain ⟨b, -, rfl⟩ := List.mem_map.mp hc
  rw [hlength]
  exact isAliasByte_alphabet (Nat.mod_lt _ (by decide))

theorem aliasPattern_spec {aliasName : GoString} (h : aliasPattern aliasName) :
    aliasName ≠ [] ∧ ∀ c ∈ aliasName, isAliasByte c := by
  unfold aliasPattern at h
  split at h
  · cases h
  · rename_i c rest
    obtain ⟨hfirst, hrest⟩ := Bool.and_eq_true_iff.mp h
    rw [Bool.and_eq_true, Bool.and_eq_true] at hfirst
    refine ⟨List.cons_ne_nil c rest, List.forall_mem_cons.mpr ⟨?_, List.all_eq_true.mp hrest⟩⟩
    unfold isAliasByte
    rw [hfirst.1.1]
    rfl

/-- A generated alias is made of letters and digits. -/
theorem nextAlias_spec {settings : RuntimeSettingsInput} {draw : Draw} {s : LinkStore}
    {aliasName : GoString} (h : (nextAlias settings draw s).1 = .ok aliasName) :
    aliasName ≠ [] ∧ ∀ c ∈ aliasName, isAliasByte c := by
  unfold nextAlias at h
  split_ifs at h
  · obtain rfl := Except.ok.inj h
    exact EncodeBase36_spec _
  · split at h
    · obtain rfl := Except.ok.inj h
      apply randomString_spec
      exact List.ne_nil_of_length_pos (by rw [List.length_ofFn]; decide)
    · cases h

/-! ## Cells -/

theorem isAliasByte_visible {c : UInt8} (h : isAliasByte c) : 0x21 ≤ c.toNat ∧ c.toNat ≤ 0x7E := by
  simp only [isAliasByte, isAsciiLetter, isDigit, Bool.or_eq_true, Bool.and_eq_true,
    decide_eq_true_eq, beq_iff_eq, ← UInt8.toNat_inj] at h
  rcases h with (((h | h) | h) | h) | h
  · omega
  · omega
  · omega
  · rw [h]
    decide
  · rw [h]
    decide

theorem isSpace_visible {c : Nat} (h : 0x21 ≤ c ∧ c ≤ 0x7E) : isSpace c = false := by
  simp only [isSpace, Bool.or_eq_false_iff, Bool.and_eq_false_iff, decide_eq_false_iff_not,
    beq_eq_false_iff_ne]
  omega

/-- An alias comes back from its cell. -/
theorem alias_cell {s : GoString} (h : ∀ c ∈ s, isAliasByte c) : trimSpace (crlf s) = s := by
  have hcr : (0x0D : UInt8) ∉ s := fun hmem => absurd (h _ hmem) (by decide)
  have hcodes : runeCodes s = s.map UInt8.toNat := by
    induction s with
    | nil => rfl
    | cons c s ih =>
      have hc : c.toNat < 0x80 := by
        have := (isAliasByte_visible (h c List.mem_cons_self)).2
        omega
      have hrest := ih (fun d hd => h d (List.mem_cons_of_mem c hd))
        fun hmem => hcr (List.mem_cons_of_mem c hmem)
      rw [runeCodes] at hrest ⊢
      rw [runes_ascii_cons hc, List.map_cons, hrest]
      rfl
  rw [crlf_of_not_mem hcr]
  apply trimSpace_of_not_space
  intro code hcode
  rw [hcodes] at hcode
  obtain ⟨c, hc, rfl⟩ := List.mem_map.mp hcode
  exact isSpace_visible (isAliasByte_visible (h c hc))

/-- A destination has no carriage return to lose. -/
theorem destination_cell {u : Unicode} {raw : GoString} (h : ValidateDestination u raw = .ok ()) :
    crlf raw = raw := by
  obtain ⟨-, -, parsed, hparse, -⟩ := ValidateDestination_ok h
  apply crlf_of_not_mem
  intro hmem
  have hctl := List.any_eq_false.mp (containsCTLByte_of_parse u hparse) 0x0D hmem
  exact hctl (by decide)

/-- A number of the columns comes back from its cell. -/
theorem number_cell {n : Int} (h : n = 301 ∨ n = 302 ∨ 0 ≤ n ∧ n ≤ MaxInterstitialSeconds) :
    trimSpace (crlf (itoa n)) ≠ [] ∧ atoi (trimSpace (crlf (itoa n))) = some n := by
  have hdelay : ∀ k : Fin 61, trimSpace (crlf (itoa (k.val : Int))) ≠ [] ∧
      atoi (trimSpace (crlf (itoa (k.val : Int)))) = some (k.val : Int) := by decide
  rcases h with rfl | rfl | ⟨hlow, hhigh⟩
  · decide
  · decide
  · unfold MaxInterstitialSeconds at hhigh
    have hk := hdelay ⟨n.toNat, by omega⟩
    rw [Int.toNat_of_nonneg hlow] at hk
    exact hk

/-! ## Tags -/

section

variable {u : Unicode} {name : GoString}

/-- What separates the tags of a cell. -/
def isTagSeparator (c : Nat) : Bool := c == 0x7C || c == 0x2C || c == 0x3B || isSpace c

/-- A tag has no separator in it. -/
theorem tag_plain (hu : u.Separates) (h : tagPattern u name) :
    ∀ c ∈ runeCodes name, isTagSeparator c = false := by
  intro c hc
  obtain ⟨r, hr, rfl⟩ := List.mem_map.mp hc
  have hform := List.all_eq_true.mp (Bool.and_eq_true_iff.mp h).2 r hr
  simp only [Bool.or_eq_true, beq_iff_eq] at hform
  have hspace : isSpace r.code = false := by
    rcases hform with ((hletter | hnumber) | hmark) | hmark
    · exact hu.letter_space _ hletter
    · exact hu.number_space _ hnumber
    · rw [hmark]
      decide
    · rw [hmark]
      decide
  have hmark : r.code ≠ 0x7C ∧ r.code ≠ 0x2C ∧ r.code ≠ 0x3B := by
    by_cases hascii : r.code < 0x80
    · rcases hform with ((hletter | hnumber) | hmark) | hmark
      · have := hu.letter_ascii _ hascii hletter
        omega
      · have := hu.number_ascii _ hascii hnumber
        omega
      · omega
      · omega
    · omega
  simp only [isTagSeparator, Bool.or_eq_false_iff, beq_eq_false_iff_ne]
  exact ⟨⟨⟨hmark.1, hmark.2.1⟩, hmark.2.2⟩, hspace⟩

theorem tag_ne_nil (h : tagPattern u name) : name ≠ [] := by
  rintro rfl
  exact Bool.false_ne_true h

/-- The cell of the tags. -/
def joinTags (tags : List GoString) : GoString := [0x7C].intercalate tags

theorem joinTags_cons (name next : GoString) (tags : List GoString) :
    joinTags (name :: next :: tags) = name ++ 0x7C :: joinTags (next :: tags) := by
  rw [joinTags, List.intercalate_cons_cons, List.append_assoc]
  rfl

variable {tags : List GoString}

/-- A cell of tags holds bars and what tags are made of. -/
theorem joinTags_codes (hu : u.Separates) (h : ∀ name ∈ tags, tagPattern u name) :
    ∀ c ∈ runeCodes (joinTags tags), c = 0x7C ∨ isTagSeparator c = false := by
  induction tags with
  | nil => exact List.forall_mem_nil _
  | cons name tags ih =>
    have hname := tag_plain hu (h name List.mem_cons_self)
    cases tags with
    | nil =>
      intro c hc
      rw [joinTags, List.intercalate_singleton] at hc
      exact Or.inr (hname c hc)
    | cons next tags =>
      intro c hc
      rw [joinTags_cons, runeCodes, runes_append_ascii (by decide), runes_ascii_cons (by decide),
        List.map_append, List.map_cons] at hc
      rcases List.mem_append.mp hc with hc | hc
      · exact Or.inr (hname c hc)
      · rcases List.mem_cons.mp hc with rfl | hc
        · exact Or.inl rfl
        · exact ih (fun other hother => h other (List.mem_cons_of_mem name hother)) c hc

theorem trimSpace_joinTags (hu : u.Separates) (h : ∀ name ∈ tags, tagPattern u name) :
    trimSpace (joinTags tags) = joinTags tags := by
  apply trimSpace_of_not_space
  intro c hc
  rcases joinTags_codes hu h c hc with rfl | hplain
  · decide
  · exact (Bool.or_eq_false_iff.mp hplain).2

/-- The cell comes back as it was written. -/
theorem tags_cell (hu : u.Separates) (h : ∀ name ∈ tags, tagPattern u name) :
    trimSpace (crlf (joinTags tags)) = joinTags tags := by
  have hcr : (0x0D : UInt8) ∉ joinTags tags := by
    intro hmem
    rcases joinTags_codes hu h 0x0D (mem_runeCodes_of_mem (by decide) hmem) with hbar | hplain
    · exact absurd hbar (by decide)
    · exact absurd hplain (by decide)
  rw [crlf_of_not_mem hcr, trimSpace_joinTags hu h]

/-- The fields of the cell are the tags. -/
theorem fieldsFunc_joinTags (hu : u.Separates) (h : ∀ name ∈ tags, tagPattern u name)
    (hne : tags ≠ []) : fieldsFunc isTagSeparator (joinTags tags) = tags := by
  induction tags with
  | nil => exact absurd rfl hne
  | cons name tags ih =>
    have hname := tag_ne_nil (h name List.mem_cons_self)
    have hruns : ∀ r ∈ runes name, isTagSeparator r.code = false := fun r hr =>
      tag_plain hu (h name List.mem_cons_self) r.code (List.mem_map_of_mem hr)
    have hrunes : runes name ≠ [] := by
      intro hnil
      apply hname
      rw [← ofRunes_runes name, hnil]
      rfl
    cases tags with
    | nil =>
      rw [joinTags, List.intercalate_singleton, fieldsFunc, List.splitOnP_eq_singleton hruns]
      simp [hrunes]
    | cons next tags =>
      have hrest := ih (fun other hother => h other (List.mem_cons_of_mem name hother))
        (List.cons_ne_nil next tags)
      rw [fieldsFunc] at hrest ⊢
      rw [joinTags_cons, runes_append_ascii (by decide), runes_ascii_cons (by decide),
        List.splitOnP_append_cons _ _ (by decide), List.splitOnP_eq_singleton hruns,
        List.singleton_append, List.filterMap_cons, hrest]
      simp [hrunes]

/-- The tags of a link come back from their cell. -/
theorem splitTags_join (hu : u.Separates) (h : ∀ name ∈ tags, tagPattern u name) :
    splitTags (trimSpace (crlf (joinTags tags))) = tags := by
  rw [tags_cell hu h]
  unfold splitTags
  by_cases hnil : tags = []
  · subst hnil
    rfl
  · have hfields := fieldsFunc_joinTags hu h hnil
    have hjoin : joinTags tags ≠ [] := by
      intro hempty
      rw [hempty] at hfields
      exact hnil hfields.symm
    rw [trimSpace_joinTags hu h, if_neg hjoin]
    exact hfields

/-! ## Normalizing stored tags -/

/-- The loop of `NormalizeTags` keeps each stored tag once. -/
theorem normalizeTagsFrom_stored (hu : u.Separates) {out : List GoString}
    (h : ∀ name ∈ tags, TagStored u name) (hout : out.Nodup) :
    ∃ kept, normalizeTagsFrom u out tags = .ok kept ∧ kept.Nodup ∧
      ∀ name, name ∈ kept ↔ name ∈ out ∨ name ∈ tags := by
  induction tags generalizing out with
  | nil => exact ⟨out, rfl, hout, fun name => by simp⟩
  | cons raw tags ih =>
    have hraw := h raw List.mem_cons_self
    have hrest := fun name hname => h name (List.mem_cons_of_mem raw hname)
    have htrim : trimSpace raw = raw := by
      apply trimSpace_of_not_space
      intro c hc
      exact (Bool.or_eq_false_iff.mp (tag_plain hu hraw.form c hc)).2
    have hlong : ¬ (runes raw).length > maxTagLength := not_lt.mpr hraw.short
    rw [normalizeTagsFrom_cons, htrim, hraw.folded, if_neg (tag_ne_nil hraw.form), if_neg hlong,
      hraw.form]
    by_cases hmem : raw ∈ out
    · obtain ⟨kept, hkept, hnodup, hiff⟩ := ih hrest hout
      refine ⟨kept, ?_, hnodup, fun name => ?_⟩
      · rw [if_pos hmem, hkept]
        rfl
      · rw [hiff, List.mem_cons]
        constructor
        · rintro (hin | hin)
          · exact Or.inl hin
          · exact Or.inr (Or.inr hin)
        · rintro (hin | rfl | hin)
          · exact Or.inl hin
          · exact Or.inl hmem
          · exact Or.inr hin
    · have hadded : (out ++ [raw]).Nodup := List.nodup_append.mpr
        ⟨hout, List.nodup_singleton raw, fun a ha b hb heq =>
          hmem (List.mem_singleton.mp hb ▸ heq ▸ ha)⟩
      obtain ⟨kept, hkept, hnodup, hiff⟩ := ih hrest hadded
      refine ⟨kept, ?_, hnodup, fun name => ?_⟩
      · rw [if_neg hmem, hkept]
        rfl
      · rw [hiff, List.mem_append, List.mem_singleton, List.mem_cons, or_assoc]

/-- Stored tags are normalized already; more than twenty are refused. -/
theorem NormalizeTags_stored (hu : u.Separates) (h : ∀ name ∈ tags, TagStored u name) :
    (tags.dedup.length ≤ maxTagsPerLink ∧ ∃ kept, NormalizeTags u tags = .ok kept ∧
      ∀ name, name ∈ kept ↔ name ∈ tags) ∨
    (¬ tags.dedup.length ≤ maxTagsPerLink ∧ ∃ e, NormalizeTags u tags = .error e) := by
  obtain ⟨kept, hkept, hnodup, hiff⟩ := normalizeTagsFrom_stored hu h List.nodup_nil
  have hsame : ∀ name, name ∈ kept ↔ name ∈ tags := fun name => by
    rw [hiff, or_iff_right List.not_mem_nil]
  have hlength : kept.length = tags.dedup.length := by
    apply List.Perm.length_eq
    rw [List.perm_ext_iff_of_nodup hnodup (List.nodup_dedup tags)]
    intro name
    rw [hsame, List.mem_dedup]
  unfold NormalizeTags
  rw [hkept]
  dsimp only
  rw [hlength]
  by_cases hfew : tags.dedup.length ≤ maxTagsPerLink
  · refine Or.inl ⟨hfew, kept, ?_, hsame⟩
    rw [if_neg (not_lt.mpr hfew)]
  · refine Or.inr ⟨hfew, .invalid "a link may have at most 20 tags", ?_⟩
    rw [if_pos (not_le.mp hfew)]

end

/-! ## The file -/

/-- The text of exported records: a byte order mark and what the writer writes. -/
def exportText (records : List (List GoString)) : GoString := byteOrderMark ++ WriteAll records

/-- A text as the importer's reader takes it: no record of it is an error. -/
def readText (text : GoString) : List Read := (ReadAll text).map Read.record

/-- The header with the mark before its first name. -/
def exportedHeader : List GoString :=
  [byteOrderMark ++ lit "alias", lit "destination_url", lit "title", lit "tags",
    lit "redirect_code", lit "interstitial_seconds"]

/-- The cells of an exported row. -/
def exportCells (row : LinkRow) (tags : List GoString) : List GoString :=
  [row.aliasName, row.destinationURL, row.title, joinTags tags, itoa row.redirectCode,
    itoa row.interstitialSeconds]

theorem exportText_header (records : List (List GoString)) :
    exportText (exportHeader :: records) = WriteAll (exportedHeader :: records) := by
  have hheader : byteOrderMark ++ writeFields exportHeader = writeFields exportedHeader := by
    decide
  rw [exportText, WriteAll_cons, WriteAll_cons, ← hheader, List.append_assoc]

/-- The file of one row, as the importer reads it. -/
theorem readText_exportText (row : LinkRow) (tags : List GoString) :
    readText (exportText [exportHeader, exportCells row tags]) =
      [.record exportedHeader, .record ((exportCells row tags).map crlf)] := by
  have hheader : exportedHeader.map crlf = exportedHeader := by decide
  have hfields : ∀ record ∈ [exportedHeader, exportCells row tags], 2 ≤ record.length := by
    intro record hrecord
    rcases List.mem_pair.mp hrecord with rfl | rfl
    · decide
    · exact (show 2 ≤ 6 by decide)
  rw [readText, exportText_header, ReadAll_WriteAll hfields, List.map_cons, hheader]
  rfl

section

variable (u : Unicode)

/-- The keys of the header cells are the names of the columns. -/
theorem columnKey_exportedHeader : exportedHeader.map (columnKey u) = exportHeader := by
  have hbare : exportedHeader.map (fun name => trimSpace
      (if byteOrderMark <+: name then name.drop byteOrderMark.length else name)) = exportHeader := by
    decide
  have hascii : ∀ name ∈ exportHeader, ∀ b ∈ name, b.toNat < 0x80 := by decide +kernel
  have hlower : ∀ name ∈ exportHeader,
      (name.map fun b => UInt8.ofNat (asciiLower b.toNat)) = name := by decide
  calc exportedHeader.map (columnKey u) = exportHeader.map (toLower u) := by
        rw [← hbare, List.map_map]
        rfl
    _ = exportHeader.map id := by
        apply List.map_congr_left
        intro name hname
        rw [toLower_ascii u (hascii name hname), hlower name hname]
        rfl
    _ = exportHeader := List.map_id exportHeader

/-- Where a column stands is decided by the keys. -/
theorem columnIndex_eq (header : List GoString) (name : GoString) :
    columnIndex u header name =
      (((header.map (columnKey u)).zipIdx.filter fun cell => cell.1 == name).map
        Prod.snd).getLast? := by
  rw [columnIndex, List.zipIdx_map, List.filter_map, List.map_map, List.getLast?_map]
  rfl

/-- The columns of an exported file. -/
def exportColumns : Columns where
  destination := 1
  aliasName := some 0
  title := some 2
  tags := some 3
  redirectCode := some 4
  interstitial := some 5

theorem columnsOf_exportedHeader : columnsOf u exportedHeader = some exportColumns := by
  have hindex : ∀ name, columnIndex u exportedHeader name =
      ((exportHeader.zipIdx.filter fun cell => cell.1 == name).map Prod.snd).getLast? := by
    intro name
    rw [columnIndex_eq, columnKey_exportedHeader]
  have hdestination : destinationNames.findSome? (columnIndex u exportedHeader) = some 1 := by
    rw [destinationNames, List.findSome?_cons, hindex]
    rfl
  rw [columnsOf, hdestination]
  simp only [hindex]
  rfl

end

/-- The request that the row of a stored link makes. -/
def importedRequest (row : LinkRow) (tags : List GoString) : CreateLinkRequest where
  destinationURL := trimSpace row.destinationURL
  aliasName := row.aliasName
  title := trimSpace (crlf row.title)
  tags := tags
  redirectCode := row.redirectCode
  interstitialSeconds := some row.interstitialSeconds

section

variable {u : Unicode} {denylist : List GoString} {row : LinkRow} {tags : List GoString}

theorem rowRequest_exportCells (hu : u.Separates) (hrow : RowStored u denylist row)
    (htags : ∀ name ∈ tags, TagStored u name) :
    rowRequest exportColumns ((exportCells row tags).map crlf) =
      .ok (importedRequest row tags) := by
  have hcode : row.redirectCode = 301 ∨ row.redirectCode = 302 ∨
      0 ≤ row.redirectCode ∧ row.redirectCode ≤ MaxInterstitialSeconds := by
    rcases hrow.redirectCode with h | h
    · exact Or.inl h
    · exact Or.inr (Or.inl h)
  obtain ⟨hcodeCell, hcodeValue⟩ := number_cell hcode
  obtain ⟨hdelayCell, hdelayValue⟩ := number_cell (Or.inr (Or.inr hrow.delay))
  have hsmall : toInt16 row.redirectCode = row.redirectCode := by
    rcases hrow.redirectCode with h | h <;> rw [h] <;> rfl
  have hcodeRead : rowRedirectCode (fieldAt ((exportCells row tags).map crlf)
      exportColumns.redirectCode) = some row.redirectCode := by
    show rowRedirectCode (trimSpace (crlf (itoa row.redirectCode))) = _
    rw [rowRedirectCode, if_neg hcodeCell, hcodeValue, Option.map_some, hsmall]
  have hdelayRead : rowInterstitial (fieldAt ((exportCells row tags).map crlf)
      exportColumns.interstitial) = some (some row.interstitialSeconds) := by
    show rowInterstitial (trimSpace (crlf (itoa row.interstitialSeconds))) = _
    have hrange : ¬ (row.interstitialSeconds < 0 ∨
        row.interstitialSeconds > MaxInterstitialSeconds) := by
      have := hrow.delay
      omega
    rw [rowInterstitial, if_neg hdelayCell, hdelayValue]
    dsimp only
    rw [if_neg hrange]
  have hdestination : crlf row.destinationURL = row.destinationURL :=
    destination_cell (checkDestination_ok hrow.destination).1
  have halias := alias_cell hrow.alias_bytes
  have hsplit := splitTags_join hu fun name hname => (htags name hname).form
  rw [rowRequest_ok exportColumns hcodeRead hdelayRead]
  show Except.ok (CreateLinkRequest.mk (trimSpace (crlf row.destinationURL))
    (trimSpace (crlf row.aliasName)) (trimSpace (crlf row.title))
    (splitTags (trimSpace (crlf (joinTags tags)))) row.redirectCode [] [] []
    (some row.interstitialSeconds)) = _
  rw [hdestination, halias, hsplit]
  rfl

/-- The row is not blank. -/
theorem isBlankRow_exportCells (hrow : RowStored u denylist row) :
    isBlankRow ((exportCells row tags).map crlf) = false := by
  apply List.all_eq_false.mpr
  refine ⟨crlf row.aliasName, List.mem_cons_self, ?_⟩
  rw [alias_cell hrow.alias_bytes, beq_iff_eq]
  exact hrow.alias_ne

/-- Importing the file of a stored link is one create call, whose failure leaves what the call
leaves. -/
theorem ImportCSV_exportText (hu : u.Separates) (hrow : RowStored u denylist row)
    (htags : ∀ name ∈ tags, TagStored u name) (loc : DatabaseLocale) (svc : LinkService)
    (ctx : Context) (outside : Nat → RowDraws) (s : LinkStore) :
    (ImportCSV u loc svc ctx (readText (exportText [exportHeader, exportCells row tags])) outside
      s).2 =
      (Create u loc svc (outside 1).settings ctx (importedRequest row tags) (outside 1).now
        (outside 1).draws s).2 := by
  rw [readText_exportText]
  unfold ImportCSV
  dsimp only
  rw [columnsOf_exportedHeader]
  dsimp only
  rw [importRows, if_neg (by decide), if_neg (by rw [isBlankRow_exportCells hrow]; decide)]
  dsimp only
  rw [rowRequest_exportCells hu hrow htags]
  dsimp only
  rcases Create u loc svc (outside 1).settings ctx (importedRequest row tags) (outside 1).now
    (outside 1).draws s with ⟨res, t⟩
  cases res <;> rfl

end

end Purels.Service
