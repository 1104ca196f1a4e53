import Mathlib.Data.List.Count
import Purels.Go.Csv

/-!
# Where records stand

The physical lines of the records that `ReadAll` takes from a text.

* `places`: the records with the text from their start on, and the empty lines before them.
* `readFields_newlines`: a record takes up the line breaks in its fields, and one more.
* `line_succ`: from the line of a record to that of the next.
* `line_iff`: a record stands on the line of its number when no line was skipped and no field
  before it holds a line break.
-/

namespace Purels.Go

/-- A record, and where it stands. -/
structure Place where
  /-- How many empty lines are skipped right before it. -/
  skipped : Nat
  /-- The text from its first character on. -/
  text : GoString
  fields : List GoString

/-- The line breaks of a text. -/
def newlines (s : GoString) : Nat := s.count 0x0A

/-- `readRecords`, with the places. -/
def readPlaces : Nat → GoString → List Place
  | 0, _ => []
  | fuel + 1, s =>
    match s.dropWhile (· == 0x0A) with
    | [] => []
    | c :: t =>
      ⟨(s.takeWhile (· == 0x0A)).length, c :: t, (readFields ((c :: t).length + 1) (c :: t)).1⟩ ::
        readPlaces fuel (readFields ((c :: t).length + 1) (c :: t)).2

/-- The records of a text with their places. -/
def places (text : GoString) : List Place :=
  readPlaces (normalizeLines text).length (normalizeLines text)

/-- The physical line on which a record starts: one, and the line breaks before it. -/
def Place.line (text : GoString) (place : Place) : Nat :=
  1 + (newlines text - newlines place.text)

/-- The line breaks within the fields of a record. -/
def Place.breaks (place : Place) : Nat := (place.fields.map newlines).sum

theorem readPlaces_fields (fuel : Nat) (s : GoString) :
    (readPlaces fuel s).map Place.fields = readRecords fuel s := by
  induction fuel generalizing s with
  | zero => rfl
  | succ fuel ih =>
    rw [readPlaces, readRecords]
    cases s.dropWhile (· == 0x0A) with
    | nil => rfl
    | cons c t => exact congrArg (_ :: ·) (ih _)

/-- The places are those of the records. -/
theorem places_fields (text : GoString) : (places text).map Place.fields = ReadAll text :=
  readPlaces_fields ..

/-! ## Line breaks -/

theorem newlines_append (s t : GoString) : newlines (s ++ t) = newlines s + newlines t :=
  List.count_append

theorem newlines_eq_zero {s : GoString} (h : (0x0A : UInt8) ∉ s) : newlines s = 0 :=
  List.count_eq_zero_of_not_mem h

theorem newlines_cons_of_ne {c : UInt8} (h : c ≠ 0x0A) (s : GoString) :
    newlines (c :: s) = newlines s :=
  List.count_cons_of_ne h

theorem newlines_cons_self (s : GoString) : newlines (0x0A :: s) = newlines s + 1 :=
  List.count_cons_self

/-- Leaving out carriage returns keeps the lines. -/
theorem newlines_crlf (s : GoString) : newlines (crlf s) = newlines s := by
  induction s with
  | nil => rfl
  | cons c s ih =>
    rw [crlf]
    split_ifs with hboth
    · rw [ih, newlines_cons_of_ne (by rw [hboth.1]; decide)]
    · rw [newlines, newlines, List.count_cons, List.count_cons]
      exact congrArg (· + _) ih

theorem newlines_normalizeLines (text : GoString) : newlines (normalizeLines text) = newlines text := by
  rw [normalizeLines, newlines_crlf]
  split_ifs with hlast
  · have hne : text ≠ [] := by
      rintro rfl
      cases hlast
    have hend : text.getLast hne = 0x0D := by
      rw [List.getLast?_eq_some_getLast hne] at hlast
      exact Option.some.inj hlast
    calc newlines text.dropLast = newlines (text.dropLast ++ [0x0D]) := by
          rw [newlines_append]
          rfl
      _ = newlines text := by rw [← hend, List.dropLast_append_getLast hne]
  · rfl

/-! ## One field -/

/-- White space is skipped within the line. -/
theorem newlines_skipSpace (s : GoString) : newlines (skipSpace s) = newlines s := by
  have hsplit : (runes s).takeWhile (fun r => isSpace r.code && r.code != 0x0A) ++
      (runes s).dropWhile (fun r => isSpace r.code && r.code != 0x0A) = runes s :=
    List.takeWhile_append_dropWhile
  have hskipped : (0x0A : UInt8) ∉
      ofRunes ((runes s).takeWhile fun r => isSpace r.code && r.code != 0x0A) := by
    intro hmem
    have hcode := mem_runeCodes_of_mem (by decide) hmem
    rw [runeCodes, runes_ofRunes_start (List.takeWhile_prefix _)] at hcode
    obtain ⟨r, hr, hline⟩ := List.mem_map.mp hcode
    have hspace := List.mem_takeWhile_imp hr
    rw [hline] at hspace
    exact absurd hspace (by decide)
  calc newlines (skipSpace s)
      = newlines (ofRunes ((runes s).takeWhile fun r => isSpace r.code && r.code != 0x0A)) +
          newlines (skipSpace s) := by rw [newlines_eq_zero hskipped, Nat.zero_add]
    _ = newlines (ofRunes (runes s)) := by
        rw [skipSpace, ← newlines_append, ← ofRunes_append, hsplit]
    _ = newlines s := by rw [ofRunes_runes]

theorem length_skipSpace_le (s : GoString) : (skipSpace s).length ≤ s.length := by
  have hsuffix : ofRunes ((runes s).takeWhile fun r => isSpace r.code && r.code != 0x0A) ++
      skipSpace s = s := by
    rw [skipSpace, ← ofRunes_append, List.takeWhile_append_dropWhile, ofRunes_runes]
  have hlength := congrArg List.length hsuffix
  rw [List.length_append] at hlength
  omega

/-- A field takes up its line breaks, and ends before a comma, a line break or the end. -/
structure FieldRead (s : GoString) (read : GoString × GoString) : Prop where
  newlines : newlines read.1 + newlines read.2 = newlines s
  length : read.2.length ≤ s.length
  ends : read.2 = [] ∨ ∃ c rest, read.2 = c :: rest ∧ Ends c

theorem plainField_read (s : GoString) : FieldRead s (plainField s) where
  newlines := by
    rw [plainField, ← newlines_append, List.takeWhile_append_dropWhile]
  length := (List.dropWhile_suffix _).length_le
  ends := by
    cases hrest : s.dropWhile isPlain with
    | nil => exact .inl hrest
    | cons c rest =>
      refine .inr ⟨c, rest, hrest, ?_⟩
      have hstop : isPlain c = false := by
        have hhead := List.head_dropWhile_not (l := s) isPlain (by rw [hrest]; exact List.cons_ne_nil _ _)
        simpa only [hrest, List.head_cons] using hhead
      simp only [isPlain, Bool.and_eq_false_iff, bne_eq_false_iff_eq] at hstop
      exact hstop

theorem quotedField_read (s : GoString) : FieldRead s (quotedField s) := by
  fun_induction quotedField s with
  | case1 => exact ⟨rfl, Nat.le_refl 0, .inl rfl⟩
  | case2 => exact ⟨rfl, Nat.zero_le _, .inl rfl⟩
  | case3 t ih =>
    refine ⟨?_, ?_, ih.ends⟩
    · rw [newlines_cons_of_ne (by decide), newlines_cons_of_ne (by decide),
        newlines_cons_of_ne (by decide)]
      exact ih.newlines
    · have hlength := ih.length
      show (quotedField t).2.length ≤ (0x22 :: 0x22 :: t : GoString).length
      rw [List.length_cons, List.length_cons]
      omega
  | case4 d t hquote hends =>
    refine ⟨?_, ?_, .inr ⟨d, t, rfl, hends⟩⟩
    · rw [newlines_cons_of_ne (show (0x22 : UInt8) ≠ 0x0A by decide)]
      exact Nat.zero_add _
    · exact Nat.le_succ _
  | case5 d t hquote hends ih =>
    refine ⟨?_, ?_, ih.ends⟩
    · rw [newlines_cons_of_ne (by decide), newlines_cons_of_ne (by decide)]
      exact ih.newlines
    · exact Nat.le_succ_of_le ih.length
  | case6 c t hquote ih =>
    refine ⟨?_, Nat.le_succ_of_le ih.length, ih.ends⟩
    have hsplit := ih.newlines
    have hcons : ∀ u : GoString, newlines (c :: u) = newlines u + if c == 0x0A then 1 else 0 :=
      fun u => List.count_cons
    show newlines (c :: (quotedField t).1) + newlines (quotedField t).2 = newlines (c :: t)
    rw [hcons, hcons]
    omega

theorem readField_read (s : GoString) : FieldRead s (readField s) := by
  have hnewlines := newlines_skipSpace s
  have hlength := length_skipSpace_le s
  unfold readField
  split
  · rename_i t heq
    obtain ⟨hcount, hroom, hends⟩ := quotedField_read t
    rw [heq, newlines_cons_of_ne (by decide)] at hnewlines
    rw [heq, List.length_cons] at hlength
    exact ⟨by omega, by omega, hends⟩
  · obtain ⟨hcount, hroom, hends⟩ := plainField_read (skipSpace s)
    exact ⟨by omega, by omega, hends⟩

/-! ## Records -/

/-- A record takes up the line breaks in its fields, and the one at its end unless it is the
last. -/
theorem readFields_newlines {fuel : Nat} {s : GoString} (h : s.length < fuel) :
    (readFields fuel s).2 = [] ∨
      ((readFields fuel s).1.map newlines).sum + 1 + newlines (readFields fuel s).2 =
        newlines s := by
  induction fuel generalizing s with
  | zero => omega
  | succ fuel ih =>
    obtain ⟨hcount, hroom, hends⟩ := readField_read s
    rw [readFields]
    split
    · rename_i field rest heq
      rw [heq] at hcount hroom
      dsimp only at hcount hroom
      rw [newlines_cons_of_ne (by decide)] at hcount
      rw [List.length_cons] at hroom
      rcases ih (s := rest) (by omega) with hend | hmore
      · exact .inl hend
      · right
        show ((field :: (readFields fuel rest).1).map newlines).sum + 1 +
          newlines (readFields fuel rest).2 = newlines s
        rw [List.map_cons, List.sum_cons]
        omega
    · rename_i field rest hcomma heq
      rw [heq] at hcount hends
      rcases hends with rfl | ⟨c, t, rfl, rfl | rfl⟩
      · exact .inl rfl
      · exact absurd rfl (hcomma t)
      · right
        rw [newlines_cons_self] at hcount
        simpa [Nat.add_assoc, Nat.add_comm 1] using hcount

/-- The line breaks of the text that a record stands in: those of the records before it and
their ends, the empty lines, and those from the record on. -/
theorem readPlaces_newlines {fuel k : Nat} {s : GoString} {place : Place}
    (h : (readPlaces fuel s)[k]? = some place) :
    newlines s = k + (((readPlaces fuel s).take k).map fun q => q.skipped + q.breaks).sum +
      place.skipped + newlines place.text := by
  induction fuel generalizing s k with
  | zero => simp [readPlaces] at h
  | succ fuel ih =>
    have hsplit : newlines s = (s.takeWhile (· == 0x0A)).length +
        newlines (s.dropWhile (· == 0x0A)) := by
      have hempty : newlines (s.takeWhile (· == 0x0A)) = (s.takeWhile (· == 0x0A)).length := by
        rw [newlines, List.count_eq_length]
        intro c hc
        exact (beq_iff_eq.mp (List.mem_takeWhile_imp (p := (· == 0x0A)) hc)).symm
      rw [← hempty, ← newlines_append, List.takeWhile_append_dropWhile]
    rw [readPlaces] at h ⊢
    cases htext : s.dropWhile (· == 0x0A) with
    | nil =>
      rw [htext] at h
      simp at h
    | cons c t =>
      rw [htext] at h hsplit
      cases k with
      | zero =>
        obtain rfl := Option.some.inj h
        simpa using hsplit
      | succ k =>
        have hrecord := @readFields_newlines ((c :: t).length + 1) (c :: t)
          (Nat.lt_succ_self _)
        dsimp only at h ⊢
        rw [List.getElem?_cons_succ] at h
        rcases hrecord with hend | hmore
        · rw [hend] at h
          have hnone : readPlaces fuel [] = [] := by cases fuel <;> rfl
          rw [hnone] at h
          cases h
        · have hrest := ih h
          rw [List.take_succ_cons, List.map_cons, List.sum_cons]
          unfold Place.breaks at hrest ⊢
          dsimp only at hrest ⊢
          omega

/-! ## Lines -/

/-- The line of a record: its number, and what drifted apart before it. -/
theorem line_eq {text : GoString} {k : Nat} {place : Place} (h : (places text)[k]? = some place) :
    place.line text =
      k + 1 + ((((places text).take k).map fun q => q.skipped + q.breaks).sum + place.skipped) := by
  have hnewlines := readPlaces_newlines h
  rw [newlines_normalizeLines] at hnewlines
  unfold Place.line places
  omega

/-- The line of a record is its number when nothing drifted apart before it. -/
theorem line_iff {text : GoString} {k : Nat} {place : Place} (h : (places text)[k]? = some place) :
    place.line text = k + 1 ↔
      (∀ q ∈ (places text).take (k + 1), q.skipped = 0) ∧
        ∀ q ∈ (places text).take k, ∀ field ∈ q.fields, (0x0A : UInt8) ∉ field := by
  have hbreaks : ∀ q : Place, q.breaks = 0 ↔ ∀ field ∈ q.fields, (0x0A : UInt8) ∉ field := by
    intro q
    rw [Place.breaks, List.sum_eq_zero_iff_forall_eq_nat]
    simp only [List.forall_mem_map, newlines, List.count_eq_zero]
  have hsum : (((places text).take k).map fun q => q.skipped + q.breaks).sum = 0 ↔
      ∀ q ∈ (places text).take k, q.skipped = 0 ∧ q.breaks = 0 := by
    rw [List.sum_eq_zero_iff_forall_eq_nat]
    simp only [List.forall_mem_map, Nat.add_eq_zero_iff]
  have htake : (places text).take (k + 1) = (places text).take k ++ [place] := by
    rw [List.take_add_one, h]
    rfl
  rw [line_eq h, htake, List.forall_mem_append, List.forall_mem_singleton]
  constructor
  · intro hline
    have hclean := hsum.mp (by omega)
    refine ⟨⟨fun q hq => (hclean q hq).1, by omega⟩, fun q hq => (hbreaks q).mp (hclean q hq).2⟩
  · rintro ⟨⟨hskipped, hown⟩, hplain⟩
    have hzero := hsum.mpr fun q hq => ⟨hskipped q hq, (hbreaks q).mpr (hplain q hq)⟩
    omega

end Purels.Go
