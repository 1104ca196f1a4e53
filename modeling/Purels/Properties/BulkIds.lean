import Purels.Go.Utf8
import Purels.Service.LinkSpecs

/-!
# The identifiers of a bulk request

`normalizeIDs` reads identifiers with `uuid.Parse`, and PostgreSQL with `string_to_uuid`.

* `uuidDigits_block`: a group of digits is read, and a hyphen after it.
* `OnlyParsed`: the spellings that only `uuid.Parse` takes.
* `parse_iff`: PostgreSQL takes what `uuid.Parse` takes, but for those spellings.
* `CastableIDs`, and `normalizeIDs_cast_iff`: for which lists no accepted identifier fails the
  cast.
* `normalizeIDs_urn`: an identifier with the `urn:uuid:` prefix fails it.
-/

namespace Purels.Properties

open Go Service Store

/-! ## The digits -/

theorem skipHyphen_of_isHex (n : Nat) {c : UInt8} (hc : isHex c) (s : GoString) :
    skipHyphen n (c :: s) = c :: s := by
  have hne : c ≠ 0x2D := by
    rintro rfl
    exact absurd hc (by decide)
  rw [skipHyphen, if_neg]
  rintro ⟨-, -, hhead⟩
  exact hne (Option.some.inj hhead)

/-- After a group of digits a hyphen is skipped, and nothing within it. -/
theorem uuidDigits_block {k : Nat} {block : GoString} (hhex : ∀ c ∈ block, isHex c)
    (hlength : block.length = 2 * (k + 1)) (n : Nat) (t : GoString) :
    (uuidDigits (n + (k + 1)) (block ++ t)).map Prod.snd =
      (uuidDigits n (skipHyphen n t)).map Prod.snd := by
  induction k generalizing block with
  | zero =>
    rcases block with _ | ⟨a, _ | ⟨b, _ | ⟨c, rest⟩⟩⟩ <;> simp at hlength
    have ha := hhex a (by simp)
    have hb := hhex b (by simp)
    show (uuidDigits (n + 1) (a :: b :: t)).map Prod.snd = _
    rw [uuidDigits, if_pos (by rw [ha, hb]; rfl), Option.map_map]
    rfl
  | succ k ih =>
    rcases block with _ | ⟨a, _ | ⟨b, _ | ⟨c, rest⟩⟩⟩
    · rw [List.length_nil] at hlength
      omega
    · rw [List.length_singleton] at hlength
      omega
    · rw [List.length_cons, List.length_singleton] at hlength
      omega
    · have ha := hhex a (by simp)
      have hb := hhex b (by simp)
      have hc := hhex c (by simp)
      have hrest : (uuidDigits (n + (k + 1)) (c :: rest ++ t)).map Prod.snd =
          (uuidDigits n (skipHyphen n t)).map Prod.snd := by
        apply ih
        · exact fun d hd => hhex d (List.mem_cons_of_mem a (List.mem_cons_of_mem b hd))
        · simp only [List.length_cons] at hlength ⊢
          omega
      show (uuidDigits ((n + (k + 1)) + 1) (a :: b :: c :: (rest ++ t))).map Prod.snd = _
      rw [uuidDigits, if_pos (by rw [ha, hb]; rfl), skipHyphen_of_isHex _ hc, Option.map_map]
      exact hrest

/-- Thirty-two digits and seven hyphens are the longest text. -/
theorem length_le_of_uuidDigits {n : Nat} {s : GoString} {p : List (Fin 16) × GoString}
    (h : uuidDigits n s = some p) : s.length ≤ p.2.length + 2 * n + (n - 1) / 2 := by
  induction n generalizing s p with
  | zero =>
    obtain rfl : ([], s) = p := by simpa [uuidDigits] using h
    simp
  | succ n ih =>
    rcases s with _ | ⟨a, _ | ⟨b, rest⟩⟩
    · simp [uuidDigits] at h
    · simp [uuidDigits] at h
    · rw [uuidDigits] at h
      split_ifs at h
      obtain ⟨q, hq, rfl⟩ := Option.map_eq_some_iff.mp h
      have hle := ih hq
      rw [skipHyphen] at hle
      split_ifs at hle with hskip
      · rw [List.length_drop] at hle
        simp only [List.length_cons]
        omega
      · simp only [List.length_cons]
        omega

/-- PostgreSQL reads a text to its end, or up to its closing brace. -/
theorem Uuid_parse_isSome {s : GoString} : (Uuid.parse s).isSome ↔
    (uuidDigits 16 (if s.head? = some 0x7B then s.drop 1 else s)).map Prod.snd =
      some (if s.head? = some 0x7B then [0x7D] else []) := by
  unfold Uuid.parse
  dsimp only
  split
  · rename_i hnone
    rw [hnone]
    simp
  · rename_i digits rest hsome
    have hrest := congrArg (Option.map Prod.snd) hsome
    rw [hrest, Option.map_some, Option.some.injEq]
    split_ifs <;> simp_all

/-! ## The spellings of `uuid.Parse` -/

/-- Hyphens after the digits 8, 12, 16 and 20, and digits elsewhere. -/
theorem hyphenated_getElem {s : GoString} (h : parsesAsUUID.hyphenated s) {i : Nat} {c : UInt8}
    (hc : s[i]? = some c) :
    (i = 8 ∨ i = 13 ∨ i = 18 ∨ i = 23 → c = 0x2D) ∧
      (¬ (i = 8 ∨ i = 13 ∨ i = 18 ∨ i = 23) → isHex c) := by
  have hmem : (c, i) ∈ s.zipIdx := List.mk_mem_zipIdx_iff_getElem?.mpr hc
  have hall := List.all_eq_true.mp h (c, i) hmem
  dsimp only at hall
  split_ifs at hall with hi
  · exact ⟨fun _ => beq_iff_eq.mp hall, fun hnot => absurd hi hnot⟩
  · exact ⟨fun hin => absurd hin hi, fun _ => hall⟩

/-- A group of digits of the hyphenated form. -/
theorem hyphenated_group {s : GoString} (h : parsesAsUUID.hyphenated s) {start size : Nat}
    (hgroup : ∀ i, start ≤ i → i < start + size → ¬ (i = 8 ∨ i = 13 ∨ i = 18 ∨ i = 23)) :
    ∀ c ∈ (s.drop start).take size, isHex c := by
  intro c hc
  obtain ⟨j, hj⟩ := List.mem_iff_getElem?.mp hc
  rw [List.getElem?_take] at hj
  split_ifs at hj with hlt
  rw [List.getElem?_drop] at hj
  exact (hyphenated_getElem h hj).2 (hgroup _ (by omega) (by omega))

/-- The groups of the hyphenated form. -/
theorem hyphenated_split {s : GoString} (h : parsesAsUUID.hyphenated s) (hlength : s.length = 36) :
    s = (s.drop 0).take 8 ++ 0x2D :: ((s.drop 9).take 4 ++ 0x2D :: ((s.drop 14).take 4 ++
      0x2D :: ((s.drop 19).take 4 ++ 0x2D :: (s.drop 24).take 12))) := by
  have hhyphen : ∀ i, i = 8 ∨ i = 13 ∨ i = 18 ∨ i = 23 → s.drop i = 0x2D :: s.drop (i + 1) := by
    intro i hi
    have hlt : i < s.length := by omega
    rw [List.drop_eq_getElem_cons hlt,
      (hyphenated_getElem h (List.getElem?_eq_getElem hlt)).1 hi]
  have hgroup : ∀ start size, s.drop start = (s.drop start).take size ++ s.drop (start + size) := by
    intro start size
    rw [← List.drop_drop, List.take_append_drop]
  have hlast : s.drop (24 + 12) = [] := List.drop_eq_nil_of_le (by omega)
  have hparts : s.drop 0 = (s.drop 0).take 8 ++ 0x2D :: ((s.drop 9).take 4 ++ 0x2D ::
      ((s.drop 14).take 4 ++ 0x2D :: ((s.drop 19).take 4 ++ 0x2D ::
        ((s.drop 24).take 12 ++ [])))) := by
    rw [← hlast, ← hgroup 24 12, ← hhyphen 23 (by omega), ← hgroup 19 4, ← hhyphen 18 (by omega),
      ← hgroup 14 4, ← hhyphen 13 (by omega), ← hgroup 9 4, ← hhyphen 8 (by omega), ← hgroup 0 8]
  rwa [List.append_nil] at hparts

/-- The hyphenated form is read to its end. -/
theorem uuidDigits_hyphenated {s : GoString} (h : parsesAsUUID.hyphenated s)
    (hlength : s.length = 36) (t : GoString) :
    (uuidDigits 16 (s ++ t)).map Prod.snd = some t := by
  have hskip : ∀ n, n % 2 = 0 → 0 < n → ∀ rest, skipHyphen n (0x2D :: rest) = rest := by
    intro n heven hpos rest
    rw [skipHyphen, if_pos ⟨heven, hpos, rfl⟩]
    rfl
  have hlen : ∀ start size, start + size ≤ 36 → ((s.drop start).take size).length = size := by
    intro start size hle
    rw [List.length_take, List.length_drop]
    omega
  rw [hyphenated_split h hlength]
  simp only [List.append_assoc, List.cons_append]
  rw [uuidDigits_block (k := 3) (hyphenated_group h (by omega)) (hlen 0 8 (by omega)) 12,
    hskip 12 (by omega) (by omega),
    uuidDigits_block (k := 1) (hyphenated_group h (by omega)) (hlen 9 4 (by omega)) 10,
    hskip 10 (by omega) (by omega),
    uuidDigits_block (k := 1) (hyphenated_group h (by omega)) (hlen 14 4 (by omega)) 8,
    hskip 8 (by omega) (by omega),
    uuidDigits_block (k := 1) (hyphenated_group h (by omega)) (hlen 19 4 (by omega)) 6,
    hskip 6 (by omega) (by omega),
    uuidDigits_block (k := 5) (hyphenated_group h (by omega)) (hlen 24 12 (by omega)) 0]
  rfl

/-- Of the hyphenated form between two bytes PostgreSQL takes the one in braces. -/
theorem wrapped_iff {inside : GoString} (h : parsesAsUUID.hyphenated inside)
    (hlength : inside.length = 36) {first last : UInt8} :
    (Uuid.parse (first :: (inside ++ [last]))).isSome ↔ first = 0x7B ∧ last = 0x7D := by
  rw [Uuid_parse_isSome, List.head?_cons]
  by_cases hfirst : first = 0x7B
  · rw [if_pos (congrArg some hfirst), if_pos (congrArg some hfirst), List.drop_one, List.tail_cons,
      uuidDigits_hyphenated h hlength, Option.some.injEq, List.singleton_inj, and_iff_right hfirst]
  · have hnot : ¬ some first = some (0x7B : UInt8) := fun heq => hfirst (Option.some.inj heq)
    rw [if_neg hnot, if_neg hnot]
    refine iff_of_false ?_ fun hboth => hfirst hboth.1
    have h7 : 7 < inside.length := by omega
    have h8 : 8 < inside.length := by omega
    have hhyphen : inside[8] = 0x2D :=
      (hyphenated_getElem h (List.getElem?_eq_getElem h8)).1 (.inl rfl)
    have hdigit : isHex inside[7] :=
      (hyphenated_getElem h (List.getElem?_eq_getElem h7)).2 (by omega)
    have hparts : inside = (inside.drop 0).take 7 ++ inside[7] :: 0x2D :: inside.drop 9 := by
      rw [← hhyphen, ← List.drop_eq_getElem_cons h8, ← List.drop_eq_getElem_cons h7, List.drop_zero,
        List.take_append_drop]
    by_cases hhex : isHex first
    · -- One digit more than the first group has, so that a hyphen stands in the fifth pair.
      have hblock : ∀ c ∈ first :: (inside.drop 0).take 7, isHex c := by
        rw [List.forall_mem_cons]
        exact ⟨hhex, hyphenated_group h (by omega)⟩
      have hread := uuidDigits_block (k := 3) hblock (by simp; omega) 12
        (inside[7] :: 0x2D :: (inside.drop 9 ++ [last]))
      have hnone : uuidDigits 12 (inside[7] :: 0x2D :: (inside.drop 9 ++ [last])) = none := by
        rw [uuidDigits, if_neg (by rw [hdigit]; decide)]
      have htext : first :: (inside ++ [last]) = (first :: (inside.drop 0).take 7) ++
          inside[7] :: 0x2D :: (inside.drop 9 ++ [last]) := by
        calc first :: (inside ++ [last])
            = first :: (((inside.drop 0).take 7 ++ inside[7] :: 0x2D :: inside.drop 9) ++
                [last]) := by rw [← hparts]
          _ = _ := by simp only [List.append_assoc, List.cons_append]
      rw [skipHyphen_of_isHex _ hdigit, hnone] at hread
      rw [htext, hread]
      simp
    · rw [hparts, List.append_assoc]
      cases hfour : (inside.drop 0).take 7 with
      | nil =>
        rw [List.nil_append, List.cons_append, uuidDigits, if_neg (by simp [hhex])]
        simp
      | cons b rest =>
        rw [List.cons_append, uuidDigits, if_neg (by simp [hhex])]
        simp

section

variable {u : Unicode}

/-- The spellings that only `uuid.Parse` takes: the one with a prefix, and the one of 38 bytes
whose first and last are not braces. -/
def OnlyParsed (s : GoString) : Prop :=
  s.length = 45 ∨ s.length = 38 ∧ ¬ (s.head? = some 0x7B ∧ s.getLast? = some 0x7D)

/-- PostgreSQL takes what `uuid.Parse` takes, but for those spellings. -/
theorem parse_iff {s : GoString} (h : parsesAsUUID u s) :
    (Uuid.parse s).isSome ↔ ¬ OnlyParsed s := by
  have hbrace : ∀ c : UInt8, isHex c → c ≠ 0x7B := by
    rintro c hc rfl
    exact absurd hc (by decide)
  rw [Uuid_parse_isSome]
  unfold parsesAsUUID at h
  split_ifs at h with h32 h36 h45 h38
  · -- The plain digits.
    refine iff_of_true ?_ (by rw [OnlyParsed]; omega)
    have hhex := List.all_eq_true.mp h
    have hhead : s.head? ≠ some 0x7B := by
      intro heq
      exact hbrace _ (hhex _ (List.mem_of_head? heq)) rfl
    have hread := uuidDigits_block (k := 15) hhex h32 0 []
    rw [if_neg hhead, if_neg hhead]
    rwa [List.append_nil] at hread
  · -- The hyphenated digits.
    refine iff_of_true ?_ (by rw [OnlyParsed]; omega)
    have hhead : s.head? ≠ some 0x7B := by
      rw [List.head?_eq_getElem?]
      intro heq
      exact hbrace _ ((hyphenated_getElem h heq).2 (by omega)) rfl
    have hread := uuidDigits_hyphenated h h36 []
    rw [if_neg hhead, if_neg hhead]
    rwa [List.append_nil] at hread
  · -- The prefix makes the text too long.
    refine iff_of_false ?_ (not_not.mpr (.inl h45))
    intro hread
    obtain ⟨p, hp, hrest⟩ := Option.map_eq_some_iff.mp hread
    have hle := length_le_of_uuidDigits hp
    rw [hrest] at hle
    split_ifs at hle
    · rw [List.length_drop, List.length_singleton] at hle
      omega
    · rw [List.length_nil] at hle
      omega
  · -- The bytes at the two ends are not looked at.
    obtain ⟨first, rest, rfl⟩ : ∃ first rest, s = first :: rest :=
      List.exists_cons_of_length_eq_add_one h38
    obtain ⟨inside, last, rfl⟩ : ∃ inside last, rest = inside ++ [last] := by
      refine ⟨rest.dropLast, rest.getLast ?_, (List.dropLast_append_getLast _).symm⟩
      rintro rfl
      simp at h38
    have hlength : inside.length = 36 := by simpa using h38
    have hinside : parsesAsUUID.hyphenated inside := by
      have htake : (inside ++ [last]).take 36 = inside := by
        rw [← hlength, List.take_left]
      rw [List.drop_one, List.tail_cons, htake] at h
      exact h
    have hlast : (first :: (inside ++ [last])).getLast? = some last := by
      rw [← List.cons_append, List.getLast?_concat]
    rw [← Uuid_parse_isSome, wrapped_iff hinside hlength, OnlyParsed, hlast, List.head?_cons,
      Option.some.injEq, Option.some.injEq]
    constructor
    · rintro hbraces (h45' | ⟨-, hnot⟩)
      · exact h45 h45'
      · exact hnot hbraces
    · intro honly
      exact not_not.mp fun hnot => honly (.inr ⟨h38, hnot⟩)

/-! ## The cast -/

/-- What PostgreSQL reads as an identifier holds digits, hyphens and braces. -/
theorem mem_of_uuidDigits {n : Nat} {s : GoString} {p : List (Fin 16) × GoString}
    (h : uuidDigits n s = some p) {c : UInt8} (hc : c ∈ s) :
    isHex c ∨ c = 0x2D ∨ c ∈ p.2 := by
  induction n generalizing s p with
  | zero =>
    obtain rfl : ([], s) = p := by simpa [uuidDigits] using h
    exact .inr (.inr hc)
  | succ n ih =>
    rcases s with _ | ⟨a, _ | ⟨b, rest⟩⟩
    · simp [uuidDigits] at h
    · simp [uuidDigits] at h
    · rw [uuidDigits] at h
      split_ifs at h with hhex
      obtain ⟨q, hq, rfl⟩ := Option.map_eq_some_iff.mp h
      rw [Bool.and_eq_true] at hhex
      have hrest : c ∈ rest → c = 0x2D ∨ c ∈ skipHyphen n rest := by
        intro hmem
        rw [skipHyphen]
        split_ifs with hskip
        · obtain ⟨rest, rfl⟩ := List.head?_eq_some_iff.mp hskip.2.2
          simpa using hmem
        · exact .inr hmem
      rcases List.mem_cons.mp hc with rfl | hc
      · exact .inl hhex.1
      rcases List.mem_cons.mp hc with rfl | hc
      · exact .inl hhex.2
      rcases hrest hc with hhyphen | hmem
      · exact .inr (.inl hhyphen)
      · have hrest := ih hq hmem
        exact hrest

/-- An identifier that PostgreSQL takes can be bound. -/
theorem uuidParam_of_parse {id : GoString} (h : (Uuid.parse id).isSome) :
    ∃ uuid, LinkStore.uuidParam id = .ok uuid := by
  obtain ⟨uuid, huuid⟩ := Option.isSome_iff_exists.mp h
  obtain ⟨p, hp, hrest⟩ := Option.map_eq_some_iff.mp (Uuid_parse_isSome.mp h)
  have hbytes : ∀ c ∈ id, isHex c ∨ c = 0x2D ∨ c = 0x7B ∨ c = 0x7D := by
    intro c hc
    by_cases hbrace : id.head? = some 0x7B
    · rw [if_pos hbrace] at hp hrest
      obtain ⟨inside, rfl⟩ := List.head?_eq_some_iff.mp hbrace
      rcases List.mem_cons.mp hc with rfl | hc
      · exact .inr (.inr (.inl rfl))
      rcases mem_of_uuidDigits hp hc with hhex | hhyphen | hmem
      · exact .inl hhex
      · exact .inr (.inl hhyphen)
      · rw [hrest, List.mem_singleton] at hmem
        exact .inr (.inr (.inr hmem))
    · rw [if_neg hbrace] at hp hrest
      rcases mem_of_uuidDigits hp hc with hhex | hhyphen | hmem
      · exact .inl hhex
      · exact .inr (.inl hhyphen)
      · rw [hrest] at hmem
        cases hmem
  have hrange : ∀ c ∈ id, 0 < c.toNat ∧ c.toNat < 0x80 := by
    intro c hc
    rcases hbytes c hc with hhex | rfl | rfl | rfl
    · simp only [isHex, isDigit, Bool.or_eq_true, Bool.and_eq_true, decide_eq_true_eq] at hhex
      omega
    · decide
    · decide
    · decide
  have hstorable : storableText id := by
    rw [storableText, validString_of_ascii fun c hc => (hrange c hc).2, Bool.true_and,
      Bool.not_eq_true', Bool.eq_false_iff, Ne, List.contains_iff_mem]
    exact fun hzero => absurd (hrange 0 hzero).1 (by decide)
  exact ⟨uuid, by rw [LinkStore.uuidParam, hstorable, huuid]; rfl⟩

/-- The cast succeeds on identifiers that PostgreSQL takes. -/
theorem uuidArray_of_parse {ids : List GoString} (h : ∀ id ∈ ids, (Uuid.parse id).isSome) :
    ∃ uuids, LinkStore.uuidArray ids = .ok uuids := by
  unfold LinkStore.uuidArray
  induction ids with
  | nil => exact ⟨[], rfl⟩
  | cons id ids ih =>
    obtain ⟨hfirst, hrest⟩ := List.forall_mem_cons.mp h
    obtain ⟨uuid, huuid⟩ := uuidParam_of_parse hfirst
    obtain ⟨uuids, huuids⟩ := ih hrest
    refine ⟨uuid :: uuids, ?_⟩
    rw [List.mapM_cons, huuid, huuids]
    rfl

/-! ## The list -/

/-- Identifiers that no statement of a bulk action fails on. -/
structure CastableIDs (ids : List GoString) : Prop where
  ne_nil : ids ≠ []
  limit : ids.length ≤ maxBulkIDs
  nodup : ids.Nodup
  accepted : ∀ id ∈ ids, (Uuid.parse id).isSome
  cast : ∃ uuids, LinkStore.uuidArray ids = .ok uuids

/-- The loop refuses what does not parse, and keeps the others once. -/
theorem normalizeIDsFrom_parses {ids raw out : List GoString} (hnodup : ids.Nodup)
    (hids : ∀ id ∈ ids, parsesAsUUID u id) (h : normalizeIDsFrom u ids raw = .ok out) :
    out.Nodup ∧ out.length ≤ ids.length + raw.length ∧ (∀ id ∈ out, parsesAsUUID u id) ∧
      ∀ candidate ∈ raw, trimSpace candidate = [] ∨ parsesAsUUID u (trimSpace candidate) := by
  induction raw generalizing ids with
  | nil =>
    obtain rfl := Except.ok.inj h
    exact ⟨hnodup, by simp, hids, List.forall_mem_nil _⟩
  | cons candidate raw ih =>
    rw [normalizeIDsFrom_cons] at h
    rw [List.forall_mem_cons, List.length_cons]
    split_ifs at h with hblank hmem hform
    · obtain ⟨hout, hlength, hparses, hrest⟩ := ih hnodup hids h
      exact ⟨hout, by omega, hparses, .inl hblank, hrest⟩
    · obtain ⟨hout, hlength, hparses, hrest⟩ := ih hnodup hids h
      exact ⟨hout, by omega, hparses, .inr (hids _ hmem), hrest⟩
    · have hform' : parsesAsUUID u (trimSpace candidate) := by simpa using hform
      have hnew : (ids ++ [trimSpace candidate]).Nodup := by
        rw [List.nodup_append]
        refine ⟨hnodup, List.nodup_singleton _, fun id hid other hother heq => ?_⟩
        rw [List.mem_singleton.mp hother] at heq
        exact hmem (heq ▸ hid)
      have hnewIds : ∀ id ∈ ids ++ [trimSpace candidate], parsesAsUUID u id := by
        intro id hid
        rcases List.mem_append.mp hid with hid | hid
        · exact hids id hid
        · rw [List.mem_singleton.mp hid]
          exact hform'
      obtain ⟨hout, hlength, hparses, hrest⟩ := ih hnew hnewIds h
      rw [List.length_append, List.length_singleton] at hlength
      exact ⟨hout, by omega, hparses, .inr hform', hrest⟩

/-- And it goes through when all of them parse. -/
theorem normalizeIDsFrom_of_parses {ids raw : List GoString}
    (h : ∀ candidate ∈ raw, trimSpace candidate = [] ∨ parsesAsUUID u (trimSpace candidate)) :
    ∃ out, normalizeIDsFrom u ids raw = .ok out := by
  induction raw generalizing ids with
  | nil => exact ⟨ids, rfl⟩
  | cons candidate raw ih =>
    obtain ⟨hfirst, hrest⟩ := List.forall_mem_cons.mp h
    rw [normalizeIDsFrom_cons]
    split_ifs with hblank hmem hform
    · exact ih hrest
    · exact ih hrest
    · rcases hfirst with hnil | hparses
      · exact absurd hnil hblank
      · rw [hparses] at hform
        cases hform
    · exact ih hrest

/-- What an accepted list has been checked for. -/
theorem normalizeIDs_parses {raw ids : List GoString} (h : normalizeIDs u raw = .ok ids) :
    ids ≠ [] ∧ ids.length ≤ maxBulkIDs ∧ ids.Nodup ∧ (∀ id ∈ ids, parsesAsUUID u id) ∧
      raw.length ≤ maxBulkIDs ∧
      ∀ candidate ∈ raw, trimSpace candidate = [] ∨ parsesAsUUID u (trimSpace candidate) := by
  unfold normalizeIDs at h
  split_ifs at h with hnil hlimit
  split at h
  · cases h
  · cases h
  · rename_i out hne hout
    obtain rfl := Except.ok.inj h
    obtain ⟨hnodup, hlength, hparses, hraw⟩ :=
      normalizeIDsFrom_parses List.nodup_nil (List.forall_mem_nil _) hout
    rw [List.length_nil] at hlength
    refine ⟨?_, by omega, hnodup, hparses, by omega, hraw⟩
    rintro rfl
    exact hne rfl

/-- No identifier of an accepted list fails the cast exactly when the list is too long, or has an
entry that `uuid.Parse` refuses, or has none in a spelling that only `uuid.Parse` takes. -/
theorem normalizeIDs_cast_iff (u : Unicode) (raw : List GoString) :
    (∀ ids, normalizeIDs u raw = .ok ids → CastableIDs ids) ↔
      maxBulkIDs < raw.length ∨
      (∃ candidate ∈ raw, trimSpace candidate ≠ [] ∧ ¬ parsesAsUUID u (trimSpace candidate)) ∨
      ∀ candidate ∈ raw, ¬ OnlyParsed (trimSpace candidate) := by
  constructor
  · intro h
    by_contra hnot
    rw [not_or, not_or] at hnot
    obtain ⟨hlimit, hparses, honly⟩ := hnot
    push Not at hparses honly
    obtain ⟨candidate, hcandidate, honly⟩ := honly
    have hne : trimSpace candidate ≠ [] := by
      intro hnil
      rw [OnlyParsed, hnil] at honly
      simp at honly
    have hall : ∀ candidate ∈ raw,
        trimSpace candidate = [] ∨ parsesAsUUID u (trimSpace candidate) := by
      intro candidate hmem
      by_cases hnil : trimSpace candidate = []
      · exact .inl hnil
      · exact .inr (hparses candidate hmem hnil)
    obtain ⟨out, hout⟩ : ∃ out, normalizeIDsFrom u [] raw = .ok out :=
      normalizeIDsFrom_of_parses hall
    have hmem : trimSpace candidate ∈ out :=
      (normalizeIDsFrom_ok hout _).mpr (.inr ⟨hne, candidate, hcandidate, rfl⟩)
    have hok : normalizeIDs u raw = .ok out := by
      unfold normalizeIDs
      rw [if_neg (List.ne_nil_of_mem hcandidate), if_neg (by omega), hout]
      cases out with
      | nil => cases hmem
      | cons => rfl
    have hparse := (h out hok).accepted _ hmem
    exact (parse_iff (hparses candidate hcandidate hne)).mp hparse honly
  · intro h ids hids
    obtain ⟨hne, hlimit, hnodup, hparses, hraw, hall⟩ := normalizeIDs_parses hids
    have haccepted : ∀ id ∈ ids, (Uuid.parse id).isSome := by
      intro id hid
      rw [parse_iff (hparses id hid)]
      obtain ⟨-, candidate, hcandidate, rfl⟩ := (normalizeIDs_ok hids id).mp hid
      rcases h with hlong | ⟨bad, hbad, hbadNe, hbadParse⟩ | honly
      · omega
      · rcases hall bad hbad with hnil | hparse
        · exact absurd hnil hbadNe
        · exact absurd hparse hbadParse
      · exact honly candidate hcandidate
    exact ⟨hne, hlimit, hnodup, haccepted, uuidArray_of_parse haccepted⟩

/-- An identifier with the prefix of a URN. -/
def urnID : GoString := lit "urn:uuid:00000000-0000-0000-0000-000000000000"

/-- It passes, and a bulk deletion of it ends in an error of the database. -/
theorem normalizeIDs_urn :
    normalizeIDs .ascii [urnID] = .ok [urnID] ∧ ¬ CastableIDs [urnID] ∧
      (Bulk .ascii {} ⟨lit "delete", [urnID], [], none⟩ 0 {}).1 = .error .database := by
  refine ⟨by decide, fun h => ?_, by decide⟩
  have hparse := h.accepted _ (List.mem_singleton.mpr rfl)
  have hnone : Uuid.parse urnID = none := by decide
  rw [hnone] at hparse
  cases hparse

end

end Purels.Properties
