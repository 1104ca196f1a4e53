import Purels.Go.Strings

/-!
# Comma-separated values

What `encoding/csv` writes, and what its reader makes of a text with `LazyQuotes`,
`TrimLeadingSpace` and records of any length: no text is an error then.

* `WriteAll`: a field is quoted when it has to be, a record ends with a newline.
* `ReadAll`: a carriage return before a newline is dropped first, then records are read
  field by field.
* `ReadAll_WriteAll`: what was written is read back, but for those carriage returns.
-/

namespace Purels.Go

/-! ## Writing -/

/-- `fieldNeedsQuotes`. -/
def fieldNeedsQuotes (field : GoString) : Bool :=
  if field = [] then false
  else if field = lit "\\." then true
  else if field.any fun c => c == 0x0A || c == 0x0D || c == 0x22 || c == 0x2C then true
  else isSpace (decodeRune field).1

/-- The inside of a quoted field: a quote is doubled. -/
def escapeQuotes : GoString → GoString
  | [] => []
  | c :: s => if c = 0x22 then 0x22 :: 0x22 :: escapeQuotes s else c :: escapeQuotes s

/-- A field as it is written. -/
def writeField (field : GoString) : GoString :=
  if fieldNeedsQuotes field then 0x22 :: (escapeQuotes field ++ [0x22]) else field

/-- The fields of a record with commas between them. -/
def writeFields : List GoString → GoString
  | [] => []
  | [field] => writeField field
  | field :: fields => writeField field ++ 0x2C :: writeFields fields

theorem writeFields_cons_cons (field next : GoString) (fields : List GoString) :
    writeFields (field :: next :: fields) = writeField field ++ 0x2C :: writeFields (next :: fields) :=
  rfl

/-- `Writer.WriteAll`. -/
def WriteAll (records : List (List GoString)) : GoString :=
  records.flatMap fun record => writeFields record ++ [0x0A]

/-! ## Reading -/

/-- A carriage return and a newline are one newline. -/
def crlf : GoString → GoString
  | [] => []
  | c :: s => if c = 0x0D ∧ s.head? = some 0x0A then crlf s else c :: crlf s

/-- What `readLine` makes of the lines: a carriage return at the end of the file goes too. -/
def normalizeLines (text : GoString) : GoString :=
  crlf (if text.getLast? = some 0x0D then text.dropLast else text)

/-- `TrimLeadingSpace`, which stays within the line. -/
def skipSpace (s : GoString) : GoString :=
  ofRunes ((runes s).dropWhile fun r => isSpace r.code && r.code != 0x0A)

/-- A character of a field without quotes. -/
def isPlain (c : UInt8) : Bool := c != 0x2C && c != 0x0A

/-- A field without quotes, up to the comma or the end of the line. -/
def plainField (s : GoString) : GoString × GoString := (s.takeWhile isPlain, s.dropWhile isPlain)

/-- A quoted field after its first quote.  A quote that is neither doubled nor at the end of
the field is part of it. -/
def quotedField : GoString → GoString × GoString
  | [] => ([], [])
  | c :: s =>
    if c = 0x22 then
      match s with
      | [] => ([], [])
      | d :: t =>
        if d = 0x22 then (0x22 :: (quotedField t).1, (quotedField t).2)
        else if d = 0x2C ∨ d = 0x0A then ([], d :: t)
        else (0x22 :: (quotedField (d :: t)).1, (quotedField (d :: t)).2)
    else (c :: (quotedField s).1, (quotedField s).2)

/-- One field, and the text from its end on. -/
def readField (s : GoString) : GoString × GoString :=
  match skipSpace s with
  | 0x22 :: s => quotedField s
  | s => plainField s

/-- The fields of a record, and the text after it; a record of the text has no more fields
than the text has bytes, and one. -/
def readFields : Nat → GoString → List GoString × GoString
  | 0, s => ([], s)
  | fuel + 1, s =>
    match readField s with
    | (field, 0x2C :: rest) => (field :: (readFields fuel rest).1, (readFields fuel rest).2)
    | (field, rest) => ([field], rest.drop 1)

/-- `Reader.Read` until the end of the text; empty lines are skipped. -/
def readRecords : Nat → GoString → List (List GoString)
  | 0, _ => []
  | fuel + 1, s =>
    match s.dropWhile (· == 0x0A) with
    | [] => []
    | c :: s =>
      (readFields ((c :: s).length + 1) (c :: s)).1 ::
        readRecords fuel (readFields ((c :: s).length + 1) (c :: s)).2

/-- `Reader.ReadAll`. -/
def ReadAll (text : GoString) : List (List GoString) :=
  readRecords (normalizeLines text).length (normalizeLines text)

example : ReadAll (lit "a, \"b\"\"\r\nc\"\r\n\nd,") =
    [[lit "a", lit "b\"\nc"], [lit "d", []]] := by decide

/-! ## Carriage returns -/

@[simp] theorem crlf_nil : crlf [] = [] := rfl

theorem crlf_cons_of_ne {c : UInt8} (h : c ≠ 0x0D) (s : GoString) : crlf (c :: s) = c :: crlf s := by
  rw [crlf, if_neg fun hboth => h hboth.1]

/-- A text without carriage returns stays as it is. -/
theorem crlf_of_not_mem {s : GoString} (h : (0x0D : UInt8) ∉ s) : crlf s = s := by
  induction s with
  | nil => rfl
  | cons c s ih =>
    have hc : c ≠ 0x0D := fun heq => h (heq ▸ List.mem_cons_self)
    rw [crlf_cons_of_ne hc, ih fun hmem => h (List.mem_cons_of_mem c hmem)]

/-- A text is normalized up to a character that is not a newline, and then after it. -/
theorem crlf_append {c : UInt8} (hc : c ≠ 0x0A) (s t : GoString) :
    crlf (s ++ c :: t) = crlf s ++ crlf (c :: t) := by
  induction s with
  | nil => rfl
  | cons d s ih =>
    have hnext : (s ++ c :: t).head? = some 0x0A ↔ s.head? = some 0x0A := by
      cases s with
      | nil =>
        refine iff_of_false (fun heq => hc (Option.some.inj heq)) ?_
        rintro ⟨⟩
      | cons e s => exact Iff.rfl
    rw [List.cons_append, crlf, crlf]
    by_cases hboth : d = 0x0D ∧ s.head? = some 0x0A
    · rw [if_pos hboth, if_pos ⟨hboth.1, hnext.mpr hboth.2⟩, ih]
    · rw [if_neg hboth, if_neg fun h => hboth ⟨h.1, hnext.mp h.2⟩, ih]
      rfl

/-- Without carriage returns before it, a newline is no different. -/
theorem crlf_append_of_not_mem {s : GoString} (h : (0x0D : UInt8) ∉ s) (t : GoString) :
    crlf (s ++ t) = s ++ crlf t := by
  induction s with
  | nil => rfl
  | cons c s ih =>
    have hc : c ≠ 0x0D := fun heq => h (heq ▸ List.mem_cons_self)
    rw [List.cons_append, crlf_cons_of_ne hc, ih fun hmem => h (List.mem_cons_of_mem c hmem)]
    rfl

/-- Normalizing only leaves characters out. -/
theorem crlf_sublist (s : GoString) : (crlf s).Sublist s := by
  induction s with
  | nil => exact List.Sublist.refl []
  | cons c s ih =>
    rw [crlf]
    split
    · exact ih.cons c
    · exact ih.cons_cons c

/-- A carriage return and a newline begin the text. -/
theorem crlf_prefix_iff {c : UInt8} {s : GoString} :
    [0x0D, 0x0A] <+: c :: s ↔ c = 0x0D ∧ s.head? = some 0x0A := by
  rw [List.cons_prefix_cons]
  refine and_congr eq_comm ?_
  cases s with
  | nil => exact iff_of_false (by simp) (by simp)
  | cons d s =>
    rw [List.cons_prefix_cons, List.head?_cons, Option.some.injEq]
    exact ⟨fun h => h.1.symm, fun h => ⟨h.symm, List.nil_prefix⟩⟩

/-- Normalizing changes nothing when no carriage return stands before a newline. -/
theorem crlf_eq_self_iff {s : GoString} : crlf s = s ↔ ¬ [0x0D, 0x0A] <:+: s := by
  induction s with
  | nil => simp
  | cons c s ih =>
    rw [List.infix_cons_iff, crlf_prefix_iff, crlf]
    by_cases hboth : c = 0x0D ∧ s.head? = some 0x0A
    · rw [if_pos hboth]
      refine iff_of_false (fun heq => ?_) (not_not.mpr (Or.inl hboth))
      have hlength := (crlf_sublist s).length_le
      rw [heq, List.length_cons] at hlength
      omega
    · rw [if_neg hboth, List.cons_inj_right, ih, not_or]
      exact ⟨fun h => ⟨hboth, h⟩, fun h => h.2⟩

/-! ## One field -/

/-- The inside of a quoted field is normalized as the field is. -/
theorem crlf_escapeQuotes (s : GoString) : crlf (escapeQuotes s) = escapeQuotes (crlf s) := by
  induction s with
  | nil => rfl
  | cons c s ih =>
    rw [escapeQuotes, crlf]
    have hhead : (escapeQuotes s).head? = s.head? := by
      cases s with
      | nil => rfl
      | cons d s =>
        rw [escapeQuotes]
        split
        · rename_i hd
          rw [hd]
          rfl
        · rfl
    split
    · rename_i hquote
      subst hquote
      rw [crlf_cons_of_ne (by decide), crlf_cons_of_ne (by decide), ih, if_neg fun h => absurd h.1 (by decide),
        escapeQuotes, if_pos rfl]
    · rename_i hquote
      rw [crlf, hhead, ih]
      split
      · rfl
      · rw [escapeQuotes, if_neg hquote]

/-- A character that ends a field. -/
def Ends (c : UInt8) : Prop := c = 0x2C ∨ c = 0x0A

theorem quotedField_cons_of_ne {c : UInt8} (hc : c ≠ 0x22) (s : GoString) :
    quotedField (c :: s) = (c :: (quotedField s).1, (quotedField s).2) := by
  cases s <;> simp [quotedField, hc]

/-- A quoted field is read up to its last quote. -/
theorem quotedField_escapeQuotes {c : UInt8} (hc : Ends c) (field s : GoString) :
    quotedField (escapeQuotes field ++ 0x22 :: c :: s) = (field, c :: s) := by
  induction field with
  | nil =>
    have hquote : c ≠ 0x22 := by
      rcases hc with rfl | rfl <;> decide
    show quotedField (0x22 :: c :: s) = ([], c :: s)
    rw [quotedField, if_pos rfl, if_neg hquote, if_pos (show c = 0x2C ∨ c = 0x0A from hc)]
  | cons d field ih =>
    rw [escapeQuotes]
    split
    · rename_i hquote
      subst hquote
      show quotedField (0x22 :: 0x22 :: (escapeQuotes field ++ 0x22 :: c :: s)) = _
      rw [quotedField, if_pos rfl, if_pos rfl, ih]
    · rename_i hquote
      rw [List.cons_append, quotedField_cons_of_ne hquote, ih]

/-- What a field that is not quoted does not hold. -/
theorem plain_of_fieldNeedsQuotes {field : GoString} (h : fieldNeedsQuotes field = false) :
    (∀ c ∈ field, c ≠ 0x0A ∧ c ≠ 0x0D ∧ c ≠ 0x22 ∧ c ≠ 0x2C) ∧
      (field ≠ [] → isSpace (decodeRune field).1 = false) := by
  unfold fieldNeedsQuotes at h
  split_ifs at h with hempty hend hspecial
  · subst hempty
    exact ⟨List.forall_mem_nil _, fun hne => absurd rfl hne⟩
  · refine ⟨fun c hc => ?_, fun _ => h⟩
    rw [Bool.not_eq_true] at hspecial
    have hnone := List.any_eq_false.mp hspecial c hc
    simp only [Bool.or_eq_true, beq_iff_eq, not_or] at hnone
    exact ⟨hnone.1.1.1, hnone.1.1.2, hnone.1.2, hnone.2⟩

/-- Nothing is skipped before a character that is not white space, or at the end of a line. -/
theorem skipSpace_eq_self {b : UInt8} {s : GoString}
    (h : isSpace (decodeRune (b :: s)).1 = false ∨ (decodeRune (b :: s)).1 = 0x0A) :
    skipSpace (b :: s) = b :: s := by
  have hstay : (isSpace (decodeRune (b :: s)).1 && (decodeRune (b :: s)).1 != 0x0A) = false := by
    rcases h with hspace | hline
    · rw [hspace, Bool.false_and]
    · rw [hline]
      decide
  unfold skipSpace
  rw [runes_cons, List.dropWhile_cons_of_neg (by rw [hstay]; exact Bool.false_ne_true),
    ← runes_cons, ofRunes_runes]

/-- A plain field is read up to what ends it. -/
theorem plainField_append {c : UInt8} (hc : Ends c) {field : GoString}
    (h : ∀ d ∈ field, d ≠ 0x0A ∧ d ≠ 0x0D ∧ d ≠ 0x22 ∧ d ≠ 0x2C) (s : GoString) :
    plainField (field ++ c :: s) = (field, c :: s) := by
  have hfield : ∀ d ∈ field, isPlain d := by
    intro d hd
    rw [isPlain, Bool.and_eq_true, bne_iff_ne, bne_iff_ne]
    exact ⟨(h d hd).2.2.2, (h d hd).1⟩
  have hstop : ¬ isPlain c := by
    rcases hc with rfl | rfl <;> decide
  unfold plainField
  rw [List.takeWhile_append_of_pos hfield, List.dropWhile_append_of_pos hfield,
    List.takeWhile_cons_of_neg hstop, List.dropWhile_cons_of_neg hstop, List.append_nil]

theorem decodeRune_of_ends {c : UInt8} (hc : Ends c) (s : GoString) :
    decodeRune (c :: s) = (c.toNat, 1) := by
  rcases hc with rfl | rfl <;> rfl

/-- A field that was written is read back, its carriage returns before newlines left out. -/
theorem readField_writeField {c : UInt8} (hc : Ends c) (field s : GoString) :
    readField (crlf (writeField field ++ c :: s)) = (crlf field, c :: crlf s) := by
  have hcr : c ≠ 0x0D := by
    rcases hc with rfl | rfl <;> decide
  unfold writeField
  by_cases hquote : fieldNeedsQuotes field = true
  · rw [if_pos hquote]
    have htext : crlf ((0x22 :: (escapeQuotes field ++ [0x22])) ++ c :: s) =
        0x22 :: (escapeQuotes (crlf field) ++ 0x22 :: c :: crlf s) := by
      rw [List.cons_append, crlf_cons_of_ne (by decide), List.append_assoc, List.singleton_append,
        crlf_append (by decide), crlf_escapeQuotes, crlf_cons_of_ne (by decide), crlf_cons_of_ne hcr]
    rw [htext]
    unfold readField
    rw [skipSpace_eq_self (Or.inl rfl)]
    exact quotedField_escapeQuotes hc (crlf field) (crlf s)
  · rw [if_neg hquote]
    obtain ⟨hplain, hfirst⟩ := plain_of_fieldNeedsQuotes (Bool.not_eq_true _ ▸ hquote)
    have hmem : (0x0D : UInt8) ∉ field := fun hmem => (hplain _ hmem).2.1 rfl
    rw [crlf_append_of_not_mem hmem, crlf_cons_of_ne hcr, crlf_of_not_mem hmem]
    have hread := plainField_append hc hplain (crlf s)
    cases field with
    | nil =>
      have hline : skipSpace (c :: crlf s) = c :: crlf s := by
        apply skipSpace_eq_self
        rw [decodeRune_of_ends hc]
        rcases hc with rfl | rfl
        · exact Or.inl rfl
        · exact Or.inr rfl
      unfold readField
      rw [List.nil_append, hline]
      rcases hc with rfl | rfl <;> exact hread
    | cons b field =>
      have hascii : c.toNat < 0x80 := by
        rcases hc with rfl | rfl <;> decide
      have hskip : skipSpace (b :: (field ++ c :: crlf s)) = b :: (field ++ c :: crlf s) := by
        apply skipSpace_eq_self
        refine Or.inl ?_
        rw [← List.cons_append, decodeRune_append hascii]
        exact hfirst (List.cons_ne_nil b field)
      unfold readField
      rw [List.cons_append, hskip]
      have hb : b ≠ 0x22 := (hplain b List.mem_cons_self).2.2.1
      split
      · rename_i heq
        exact absurd (List.cons.inj heq).1 hb
      · exact hread

/-! ## Records -/

/-- A record that was written is read back, whatever comes after it. -/
theorem readFields_writeFields {fuel : Nat} {record : List GoString} (hrecord : record ≠ [])
    (hfuel : record.length ≤ fuel) (s : GoString) :
    readFields fuel (crlf (writeFields record ++ 0x0A :: s)) = (record.map crlf, crlf s) := by
  induction record generalizing fuel with
  | nil => exact absurd rfl hrecord
  | cons field fields ih =>
    obtain ⟨fuel, rfl⟩ : ∃ n, fuel = n + 1 := by
      rw [List.length_cons] at hfuel
      exact ⟨fuel - 1, by omega⟩
    cases fields with
    | nil =>
      rw [writeFields, readFields, readField_writeField (Or.inr rfl)]
      rfl
    | cons next fields =>
      have hrest := ih (List.cons_ne_nil next fields) (Nat.le_of_succ_le_succ hfuel)
      rw [writeFields_cons_cons, List.append_assoc, List.cons_append, readFields,
        readField_writeField (Or.inl rfl)]
      show (crlf field :: (readFields fuel _).1, (readFields fuel _).2) = _
      rw [hrest]
      rfl

theorem crlf_ne_nil {s : GoString} (h : s ≠ []) : crlf s ≠ [] := by
  induction s with
  | nil => exact absurd rfl h
  | cons c s ih =>
    rw [crlf]
    split
    · rename_i hboth
      apply ih
      rintro rfl
      exact absurd hboth.2 (by simp)
    · exact List.cons_ne_nil _ _

/-- The text of a record is at least as long as its fields are many. -/
theorem length_le_writeFields (record : List GoString) (s : GoString) :
    record.length ≤ (crlf (writeFields record ++ 0x0A :: s)).length := by
  induction record with
  | nil => exact Nat.zero_le _
  | cons field fields ih =>
    cases fields with
    | nil =>
      have hne : crlf (writeFields [field] ++ 0x0A :: s) ≠ [] :=
        crlf_ne_nil (List.append_ne_nil_of_right_ne_nil _ (List.cons_ne_nil _ _))
      exact List.length_pos_iff.mpr hne
    | cons next fields =>
      rw [writeFields_cons_cons, List.append_assoc, List.cons_append, crlf_append (by decide),
        crlf_cons_of_ne (by decide)]
      simp only [List.length_append, List.length_cons] at ih ⊢
      omega

/-- The line of a record with a comma in it is not empty. -/
theorem writeFields_head {record : List GoString} (h : 2 ≤ record.length) (s : GoString) :
    ∃ c rest, crlf (writeFields record ++ 0x0A :: s) = c :: rest ∧ c ≠ 0x0A := by
  rcases record with _ | ⟨field, _ | ⟨next, fields⟩⟩
  · simp at h
  · simp at h
  rw [writeFields_cons_cons, List.append_assoc, List.cons_append]
  generalize writeFields (next :: fields) ++ 0x0A :: s = rest
  unfold writeField
  by_cases hquote : fieldNeedsQuotes field = true
  · rw [if_pos hquote, List.cons_append, crlf_cons_of_ne (by decide)]
    exact ⟨_, _, rfl, by decide⟩
  · rw [if_neg hquote]
    obtain ⟨hplain, -⟩ := plain_of_fieldNeedsQuotes (Bool.not_eq_true _ ▸ hquote)
    cases field with
    | nil =>
      rw [List.nil_append, crlf_cons_of_ne (by decide)]
      exact ⟨_, _, rfl, by decide⟩
    | cons b field =>
      have hb := hplain b List.mem_cons_self
      rw [List.cons_append, crlf_cons_of_ne hb.2.1]
      exact ⟨_, _, rfl, hb.1⟩

theorem WriteAll_cons (record : List GoString) (records : List (List GoString)) :
    WriteAll (record :: records) = writeFields record ++ 0x0A :: WriteAll records := by
  show (writeFields record ++ [0x0A]) ++ WriteAll records = _
  rw [List.append_assoc, List.singleton_append]

/-- Records that were written are read back. -/
theorem readRecords_WriteAll {fuel : Nat} {records : List (List GoString)}
    (hfields : ∀ record ∈ records, 2 ≤ record.length) (hfuel : records.length ≤ fuel) :
    readRecords fuel (crlf (WriteAll records)) = records.map (List.map crlf) := by
  induction records generalizing fuel with
  | nil => cases fuel <;> rfl
  | cons record records ih =>
    obtain ⟨fuel, rfl⟩ : ∃ n, fuel = n + 1 := by
      rw [List.length_cons] at hfuel
      exact ⟨fuel - 1, by omega⟩
    have hrecord := hfields record List.mem_cons_self
    obtain ⟨c, rest, hhead, hc⟩ := writeFields_head hrecord (WriteAll records)
    have hroom : record.length ≤ (c :: rest).length + 1 :=
      Nat.le_succ_of_le (hhead ▸ length_le_writeFields record (WriteAll records))
    have hne : record ≠ [] := List.ne_nil_of_length_pos (by omega)
    have hread := readFields_writeFields hne hroom (WriteAll records)
    have hskip : (c :: rest).dropWhile (· == 0x0A) = c :: rest :=
      List.dropWhile_cons_of_neg fun h => hc (beq_iff_eq.mp h)
    rw [hhead] at hread
    rw [WriteAll_cons, hhead, readRecords, hskip]
    dsimp only
    rw [hread, ih (fun other hother => hfields other (List.mem_cons_of_mem _ hother))
      (Nat.le_of_succ_le_succ hfuel)]
    rfl

/-- What was written ends with a newline. -/
theorem normalizeLines_WriteAll (records : List (List GoString)) :
    normalizeLines (WriteAll records) = crlf (WriteAll records) := by
  have hlast : (WriteAll records).getLast? ≠ some 0x0D := by
    induction records using List.reverseRecOn with
    | nil => simp [WriteAll]
    | append_singleton records record _ =>
      unfold WriteAll
      rw [List.flatMap_append, List.flatMap_singleton, ← List.append_assoc, List.getLast?_concat]
      decide
  rw [normalizeLines, if_neg hlast]

theorem length_crlf_line (s t : GoString) :
    (crlf t).length + 1 ≤ (crlf (s ++ 0x0A :: t)).length := by
  induction s with
  | nil => exact le_of_eq (congrArg List.length (crlf_cons_of_ne (by decide) t)).symm
  | cons c s ih =>
    rw [List.cons_append, crlf]
    split
    · exact ih
    · rw [List.length_cons]
      omega

/-- A text is no shorter than its records are many. -/
theorem length_le_WriteAll (records : List (List GoString)) :
    records.length ≤ (crlf (WriteAll records)).length := by
  induction records with
  | nil => exact Nat.zero_le _
  | cons record records ih =>
    have hline := length_crlf_line (writeFields record) (WriteAll records)
    rw [WriteAll_cons, List.length_cons]
    omega

/-- The reader takes back what the writer wrote, but for carriage returns before newlines. -/
theorem ReadAll_WriteAll {records : List (List GoString)}
    (hfields : ∀ record ∈ records, 2 ≤ record.length) :
    ReadAll (WriteAll records) = records.map (List.map crlf) := by
  rw [ReadAll, normalizeLines_WriteAll]
  exact readRecords_WriteAll hfields (length_le_WriteAll records)

end Purels.Go
