import Purels.Go.Fields
import Purels.Go.Json
import Purels.Security.Accounts
import Purels.Service.Csv

/-!
# Naming the accounts of an identity provider

`deriveUsername` and `uniqueUsername`: the name an identity gets at its first sign-in.

* `cleanUsername`, `deriveUsername`: what the provider sends, reduced to a user name.
* `withUsernameSuffix`, `uniqueUsername`: a name that is not taken.
* `usernamePattern_cut`: a user name stays one when it is cut and trimmed.
* `provisioned_name`: the name is always valid, and free when one of its forms is.
-/

namespace Purels.Service

open Go Security

/-! ## Deriving a name -/

def oidcUsernameMinLength : Nat := 3
def oidcUsernameMaxLength : Nat := 32
def oidcUsernameSuffixes : Nat := 100
def oidcUsernameHashLength : Nat := 12
def oidcUsernameFallbackPrefix : GoString := lit "oidc-"

/-- A byte the pattern allows: `[a-z0-9_-]`. -/
def isUsernameByte (c : UInt8) : Bool :=
  usernamePattern.isLowerOrDigit c || c == 0x5F || c == 0x2D

/-- `[_-]`. -/
def isUsernameEdge (c : UInt8) : Bool := c == 0x5F || c == 0x2D

/-- The rune is a byte the pattern allows. -/
def usernameByte (r : Rune) : Option UInt8 :=
  if r.code < 0x80 ∧ isUsernameByte (UInt8.ofNat r.code) then some (UInt8.ofNat r.code) else none

/-- `oidcUsernameInvalidRun.ReplaceAllString(s, "-")`: one hyphen for every run of runes that the
pattern does not allow.  `inRun` says that the rune before was one of them. -/
def replaceInvalidRuns (inRun : Bool) : List Rune → GoString
  | [] => []
  | r :: rs =>
    match usernameByte r with
    | some c => c :: replaceInvalidRuns false rs
    | none =>
      if inRun then replaceInvalidRuns true rs else 0x2D :: replaceInvalidRuns true rs

/-- `oidcUsernameEdgeRun.ReplaceAllString(s, "")`. -/
def trimUsernameEdges (s : GoString) : GoString :=
  (s.dropWhile isUsernameEdge).rdropWhile isUsernameEdge

/-- `emailLocalPart`. -/
def emailLocalPart (email : GoString) : GoString :=
  match email.findIdx? fun c => c == 0x40 with
  | some at_ => email.take at_
  | none => []

/-- `hex.EncodeToString`. -/
def encodeHex (bytes : List UInt8) : GoString :=
  bytes.flatMap fun b =>
    [Go.hexDigit (b.toNat / 16), Go.hexDigit (b.toNat % 16)]

section

variable (u : Unicode) (sha256 : GoString → Fin 32 → UInt8)

/-- `cleanUsername`. -/
def cleanUsername (raw : GoString) : GoString :=
  let candidate := trimUsernameEdges (replaceInvalidRuns false (runes (toLower u raw)))
  let candidate :=
    if candidate.length > oidcUsernameMaxLength then
      trimUsernameEdges (candidate.take oidcUsernameMaxLength)
    else candidate
  if candidate.length < oidcUsernameMinLength then [] else candidate

/-- `subjectDigest`. -/
def subjectDigest (subject : GoString) : GoString :=
  (encodeHex (List.ofFn (sha256 subject))).take oidcUsernameHashLength

/-- `deriveUsername`. -/
def deriveUsername (preferredUsername email subject : GoString) : GoString :=
  if cleanUsername u preferredUsername ≠ [] then cleanUsername u preferredUsername
  else if cleanUsername u (emailLocalPart email) ≠ [] then cleanUsername u (emailLocalPart email)
  else oidcUsernameFallbackPrefix ++ subjectDigest sha256 subject

end

/-! ## Finding one that is free -/

/-- `withUsernameSuffix`. -/
def withUsernameSuffix (candidate : GoString) (suffix : Nat) : GoString :=
  let tag := 0x2D :: itoa suffix
  if candidate.length > oidcUsernameMaxLength - tag.length then
    trimUsernameEdges (candidate.take (oidcUsernameMaxLength - tag.length)) ++ tag
  else candidate ++ tag

/-- `uniqueUsername`. -/
def uniqueUsername (candidate : GoString) (isTaken : GoString → Bool) : GoString :=
  if !isTaken candidate then candidate
  else
    match (List.range' 2 (oidcUsernameSuffixes - 1)).find? fun suffix =>
        !isTaken (withUsernameSuffix candidate suffix) with
    | some suffix => withUsernameSuffix candidate suffix
    | none => withUsernameSuffix candidate oidcUsernameSuffixes

example : cleanUsername .ascii (lit "Alice  Smith!") = lit "alice-smith" := by decide
example : withUsernameSuffix (List.replicate 32 0x61) 10 = List.replicate 29 0x61 ++ lit "-10" := by
  decide

/-! ## What is derived is a user name -/

/-- A letter or digit, then bytes the pattern allows: a user name but for its length. -/
def Headed (s : GoString) : Prop :=
  ∃ c rest, s = c :: rest ∧ usernamePattern.isLowerOrDigit c ∧ ∀ b ∈ rest, isUsernameByte b

theorem usernamePattern_iff {s : GoString} :
    usernamePattern s ↔ Headed s ∧ 3 ≤ s.length ∧ s.length ≤ 32 := by
  unfold usernamePattern
  split
  · constructor
    · nofun
    · rintro ⟨⟨c, rest, hs, -⟩, -⟩
      cases hs
  · rename_i c rest
    simp only [Bool.and_eq_true, decide_eq_true_eq, List.all_eq_true, List.length_cons]
    constructor
    · rintro ⟨⟨⟨hhead, hshort⟩, hlong⟩, hrest⟩
      exact ⟨⟨c, rest, rfl, hhead, hrest⟩, by omega, by omega⟩
    · rintro ⟨⟨d, tail, heq, hhead, hrest⟩, hshort, hlong⟩
      cases heq
      exact ⟨⟨⟨hhead, by omega⟩, by omega⟩, hrest⟩

theorem isUsernameByte_cases {c : UInt8} (h : isUsernameByte c) :
    usernamePattern.isLowerOrDigit c ∨ isUsernameEdge c := by
  unfold isUsernameByte at h
  simp only [Bool.or_eq_true] at h
  unfold isUsernameEdge
  rw [Bool.or_eq_true]
  rcases h with (hhead | hlow) | hhyphen
  · exact .inl hhead
  · exact .inr (.inl hlow)
  · exact .inr (.inr hhyphen)

theorem not_edge_of_isLowerOrDigit {c : UInt8} (h : usernamePattern.isLowerOrDigit c) :
    ¬ isUsernameEdge c := by
  simp only [usernamePattern.isLowerOrDigit, isDigit, Bool.or_eq_true, Bool.and_eq_true,
    decide_eq_true_eq] at h
  simp only [isUsernameEdge, Bool.or_eq_true, beq_iff_eq, not_or]
  constructor
  · rintro rfl
    simp at h
  · rintro rfl
    simp at h

/-- Only bytes that the pattern allows are left. -/
theorem replaceInvalidRuns_allowed (inRun : Bool) (rs : List Rune) :
    ∀ b ∈ replaceInvalidRuns inRun rs, isUsernameByte b := by
  induction rs generalizing inRun with
  | nil => nofun
  | cons r rs ih =>
    intro b hb
    rw [replaceInvalidRuns] at hb
    split at hb
    · rename_i c hc
      rcases List.mem_cons.mp hb with rfl | hrest
      · unfold usernameByte at hc
        split_ifs at hc with hallowed
        cases hc
        exact hallowed.2
      · exact ih false b hrest
    · split_ifs at hb
      · exact ih true b hb
      · rcases List.mem_cons.mp hb with rfl | hrest
        · decide
        · exact ih true b hrest

/-- Allowed bytes, trimmed: nothing, or a name but for its length. -/
theorem headed_trimUsernameEdges {s : GoString} (h : ∀ b ∈ s, isUsernameByte b) :
    trimUsernameEdges s = [] ∨ Headed (trimUsernameEdges s) := by
  unfold trimUsernameEdges
  cases hdrop : s.dropWhile isUsernameEdge with
  | nil => exact .inl rfl
  | cons c rest =>
    have hsub : ∀ b ∈ c :: rest, b ∈ s := by
      rw [← hdrop]
      exact (List.dropWhile_sublist _).subset
    have hedge : ¬ isUsernameEdge c := by
      have hhead := List.head_dropWhile_not isUsernameEdge (l := s) (by rw [hdrop]; simp)
      simpa [hdrop] using hhead
    have hlower : usernamePattern.isLowerOrDigit c :=
      (isUsernameByte_cases (h c (hsub c List.mem_cons_self))).resolve_right hedge
    right
    rw [← List.nil_append (c :: rest), rdropWhile_append_cons hedge, List.nil_append]
    refine ⟨c, _, rfl, hlower, fun b hb => h b (hsub b (List.mem_cons_of_mem c ?_))⟩
    exact (List.rdropWhile_prefix _ _).subset hb

theorem Headed.allowed {s : GoString} (h : Headed s) : ∀ b ∈ s, isUsernameByte b := by
  obtain ⟨c, rest, rfl, hhead, hrest⟩ := h
  intro b hb
  rcases List.mem_cons.mp hb with rfl | hmem
  · unfold isUsernameByte
    rw [hhead]
    rfl
  · exact hrest b hmem

/-- A name that is cut after its first byte or later, and trimmed, keeps its head. -/
theorem Headed.cut {s : GoString} (h : Headed s) {n : Nat} (hn : 0 < n) :
    Headed (trimUsernameEdges (s.take n)) ∧ (trimUsernameEdges (s.take n)).length ≤ n := by
  obtain ⟨c, rest, rfl, hhead, hrest⟩ := h
  obtain ⟨m, rfl⟩ : ∃ m, n = m + 1 := ⟨n - 1, by omega⟩
  have hedge := not_edge_of_isLowerOrDigit hhead
  have htrim : trimUsernameEdges ((c :: rest).take (m + 1)) =
      c :: (rest.take m).rdropWhile isUsernameEdge := by
    rw [List.take_succ_cons, trimUsernameEdges, List.dropWhile_cons_of_neg hedge]
    exact rdropWhile_append_cons hedge [] _
  rw [htrim]
  constructor
  · refine ⟨c, _, rfl, hhead, fun b hb => hrest b ?_⟩
    exact List.mem_of_mem_take ((List.rdropWhile_prefix _ _).subset hb)
  · have hle := (List.rdropWhile_prefix isUsernameEdge (l := rest.take m)).length_le
    rw [List.length_take] at hle
    rw [List.length_cons]
    omega

/-- What is left of a text is a user name, when anything is. -/
theorem usernamePattern_cleanUsername (u : Unicode) (raw : GoString) :
    cleanUsername u raw = [] ∨ usernamePattern (cleanUsername u raw) := by
  unfold cleanUsername
  rcases headed_trimUsernameEdges (replaceInvalidRuns_allowed false (runes (toLower u raw))) with
    hnil | hheaded
  · left
    rw [hnil]
    rfl
  · dsimp only
    generalize trimUsernameEdges (replaceInvalidRuns false (runes (toLower u raw))) = base
      at hheaded ⊢
    have hcandidate : Headed (if base.length > oidcUsernameMaxLength then
        trimUsernameEdges (base.take oidcUsernameMaxLength) else base) ∧
        (if base.length > oidcUsernameMaxLength then
          trimUsernameEdges (base.take oidcUsernameMaxLength) else base).length ≤
            oidcUsernameMaxLength := by
      split_ifs with hlong
      · exact hheaded.cut (by decide)
      · exact ⟨hheaded, by omega⟩
    generalize (if base.length > oidcUsernameMaxLength then
      trimUsernameEdges (base.take oidcUsernameMaxLength) else base) = candidate at hcandidate ⊢
    split_ifs with hshort
    · exact .inl rfl
    · exact .inr (usernamePattern_iff.mpr ⟨hcandidate.1, Nat.le_of_not_lt hshort, hcandidate.2⟩)

theorem usernamePattern_fallback (sha256 : GoString → Fin 32 → UInt8) (subject : GoString) :
    usernamePattern (oidcUsernameFallbackPrefix ++ subjectDigest sha256 subject) := by
  have hdigit : ∀ n < 16, isUsernameByte (Go.hexDigit n) := by decide
  have hbytes : ∀ b ∈ subjectDigest sha256 subject, isUsernameByte b := by
    intro b hb
    obtain ⟨x, -, hx⟩ := List.mem_flatMap.mp (List.mem_of_mem_take hb)
    have hbyte := x.toNat_lt
    rcases List.mem_cons.mp hx with rfl | hx
    · exact hdigit _ (by omega)
    · rw [List.mem_singleton.mp hx]
      exact hdigit _ (by omega)
  have hlength : (subjectDigest sha256 subject).length = 12 := by
    unfold subjectDigest encodeHex
    simp [oidcUsernameHashLength]
  refine usernamePattern_iff.mpr ⟨⟨0x6F, lit "idc-" ++ subjectDigest sha256 subject, rfl, by decide,
    fun b hb => ?_⟩, ?_, ?_⟩
  · rcases List.mem_append.mp hb with hfront | hdigest
    · exact List.all_eq_true.mp (by decide : (lit "idc-").all isUsernameByte) b hfront
    · exact hbytes b hdigest
  · rw [List.length_append, hlength]
    decide
  · rw [List.length_append, hlength]
    decide

theorem usernamePattern_deriveUsername (u : Unicode) (sha256 : GoString → Fin 32 → UInt8)
    (preferredUsername email subject : GoString) :
    usernamePattern (deriveUsername u sha256 preferredUsername email subject) := by
  unfold deriveUsername
  split_ifs with hpreferred hemail
  · exact (usernamePattern_cleanUsername u preferredUsername).resolve_left hpreferred
  · exact (usernamePattern_cleanUsername u (emailLocalPart email)).resolve_left hemail
  · exact usernamePattern_fallback sha256 subject

/-! ## Suffixes -/

/-- The suffixes of the search, as texts: digits, no more than three, and each its own. -/
theorem itoa_suffix {n : Nat} (h : n ≤ oidcUsernameSuffixes) :
    (itoa n).all isDigit ∧ (itoa n).length ≤ 3 ∧ 1 ≤ (itoa n).length ∧
      atoi (itoa n) = some (n : Int) := by
  have hall : ∀ n < 101, (itoa (n : Nat)).all isDigit ∧ (itoa (n : Nat)).length ≤ 3 ∧
      1 ≤ (itoa (n : Nat)).length ∧ atoi (itoa (n : Nat)) = some (n : Int) := by decide
  exact hall n (Nat.lt_succ_of_le h)

/-- A form of the name ends in its suffix, after a name but for its length. -/
theorem withUsernameSuffix_shape {candidate : GoString} (h : usernamePattern candidate) {n : Nat}
    (hn : n ≤ oidcUsernameSuffixes) :
    ∃ base, withUsernameSuffix candidate n = base ++ 0x2D :: itoa n ∧ Headed base ∧
      base.length + 1 + (itoa n).length ≤ 32 := by
  obtain ⟨hheaded, -, hlong⟩ := usernamePattern_iff.mp h
  obtain ⟨-, hdigits, -, -⟩ := itoa_suffix hn
  have htag : oidcUsernameMaxLength - (0x2D :: itoa n).length = 31 - (itoa n).length := by
    rw [List.length_cons, oidcUsernameMaxLength]
    omega
  unfold withUsernameSuffix
  dsimp only
  rw [htag]
  split_ifs with hcut
  · have hroom : 0 < 31 - (itoa n).length := by omega
    obtain ⟨hbase, hle⟩ := hheaded.cut hroom
    exact ⟨_, rfl, hbase, by omega⟩
  · exact ⟨_, rfl, hheaded, by omega⟩

theorem isUsernameByte_of_isDigit {c : UInt8} (h : isDigit c) : isUsernameByte c := by
  unfold isUsernameByte usernamePattern.isLowerOrDigit
  simp [h]

theorem usernamePattern_withUsernameSuffix {candidate : GoString} (h : usernamePattern candidate)
    {n : Nat} (hn : n ≤ oidcUsernameSuffixes) :
    usernamePattern (withUsernameSuffix candidate n) := by
  obtain ⟨base, hform, ⟨c, rest, rfl, hhead, hrest⟩, hlength⟩ := withUsernameSuffix_shape h hn
  obtain ⟨hdigits, -, hone, -⟩ := itoa_suffix hn
  rw [hform]
  refine usernamePattern_iff.mpr ⟨⟨c, rest ++ 0x2D :: itoa n, rfl, hhead, fun b hb => ?_⟩, ?_, ?_⟩
  · rcases List.mem_append.mp hb with hbase | htag
    · exact hrest b hbase
    · rcases List.mem_cons.mp htag with rfl | hdigit
      · decide
      · exact isUsernameByte_of_isDigit (List.all_eq_true.mp hdigits b hdigit)
  · simp only [List.length_append, List.length_cons]
    omega
  · simp only [List.length_append, List.length_cons] at hlength ⊢
    omega

/-- The digits after the last hyphen tell one suffix from another. -/
theorem withUsernameSuffix_inj {candidate : GoString} (h : usernamePattern candidate) {m n : Nat}
    (hm : m ≤ oidcUsernameSuffixes) (hn : n ≤ oidcUsernameSuffixes)
    (heq : withUsernameSuffix candidate m = withUsernameSuffix candidate n) : m = n := by
  obtain ⟨base, hform, -⟩ := withUsernameSuffix_shape h hm
  obtain ⟨base', hform', -⟩ := withUsernameSuffix_shape h hn
  have hlast : ∀ k base, k ≤ oidcUsernameSuffixes →
      (base ++ (0x2D : UInt8) :: itoa k).rtakeWhile (· != 0x2D) = itoa k := by
    intro k base hk
    have hdigits : ∀ b ∈ (itoa k).reverse, (b != 0x2D) = true := by
      intro b hb
      have hdigit := List.all_eq_true.mp (itoa_suffix hk).1 b (List.mem_reverse.mp hb)
      rw [bne_iff_ne]
      rintro rfl
      exact absurd hdigit (by decide)
    rw [List.rtakeWhile, List.reverse_append, List.reverse_cons, List.append_assoc,
      List.singleton_append, List.takeWhile_append_of_pos hdigits,
      List.takeWhile_cons_of_neg (by decide), List.append_nil, List.reverse_reverse]
  have htags : itoa m = itoa n := by
    rw [← hlast m base hm, ← hlast n base' hn, ← hform, ← hform', heq]
  have hvalues := (itoa_suffix hm).2.2.2
  rw [htags, (itoa_suffix hn).2.2.2] at hvalues
  exact_mod_cast (Option.some.inj hvalues).symm

/-! ## The name of an account -/

theorem isUsernameByte_code {b : UInt8} (h : isUsernameByte b) :
    0x20 < b.toNat ∧ b.toNat < 0x7F ∧ asciiLower b.toNat = b.toNat := by
  have hcode : (0x61 ≤ b.toNat ∧ b.toNat ≤ 0x7A) ∨ (0x30 ≤ b.toNat ∧ b.toNat ≤ 0x39) ∨
      b.toNat = 0x5F ∨ b.toNat = 0x2D := by
    simp only [isUsernameByte, usernamePattern.isLowerOrDigit, isDigit, Bool.or_eq_true,
      Bool.and_eq_true, decide_eq_true_eq, beq_iff_eq] at h
    rcases h with ((hletter | hdigit) | rfl) | rfl
    · exact .inl hletter
    · exact .inr (.inl hdigit)
    · exact .inr (.inr (.inl rfl))
    · exact .inr (.inr (.inr rfl))
  unfold asciiLower
  rw [if_neg (by omega)]
  omega

/-- A user name is written as it is stored. -/
theorem NormalizeUsername_eq (u : Unicode) {s : GoString} (h : usernamePattern s) :
    NormalizeUsername u s = .ok s := by
  have hbytes := (usernamePattern_iff.mp h).1.allowed
  have htrim : trimSpace s = s :=
    trimSpace_printable fun b hb =>
      ⟨(isUsernameByte_code (hbytes b hb)).1, (isUsernameByte_code (hbytes b hb)).2.1⟩
  have hlower : toLower u s = s := by
    have hascii : ∀ b ∈ s, b.toNat < 0x80 := by
      intro b hb
      have hcode := (isUsernameByte_code (hbytes b hb)).2.1
      omega
    rw [toLower_ascii u hascii]
    refine (List.map_congr_left fun b hb => ?_).trans (List.map_id s)
    rw [(isUsernameByte_code (hbytes b hb)).2.2, UInt8.ofNat_toNat]
    rfl
  unfold NormalizeUsername
  dsimp only
  rw [htrim, hlower, h]
  rfl

/-- The search gives the base or one of its forms, and a free one when there is any. -/
theorem uniqueUsername_cases (candidate : GoString) (isTaken : GoString → Bool) :
    (uniqueUsername candidate isTaken = candidate ∨ ∃ n, n ≤ oidcUsernameSuffixes ∧
        uniqueUsername candidate isTaken = withUsernameSuffix candidate n) ∧
      ((isTaken candidate = false ∨ ∃ n, 2 ≤ n ∧ n ≤ oidcUsernameSuffixes ∧
          isTaken (withUsernameSuffix candidate n) = false) →
        isTaken (uniqueUsername candidate isTaken) = false) := by
  unfold uniqueUsername
  by_cases hbase : isTaken candidate = true
  · rw [if_neg (by rw [hbase]; decide)]
    split
    · rename_i suffix hfind
      have hrange := List.mem_range'_1.mp (List.mem_of_find?_eq_some hfind)
      have hfree := List.find?_some hfind
      refine ⟨.inr ⟨suffix, by unfold oidcUsernameSuffixes at *; omega, rfl⟩, fun _ => ?_⟩
      simpa using hfree
    · rename_i hfind
      refine ⟨.inr ⟨oidcUsernameSuffixes, le_rfl, rfl⟩, fun hany => ?_⟩
      rcases hany with hfree | ⟨n, htwo, hle, hfree⟩
      · rw [hbase] at hfree
        cases hfree
      · have hmem : n ∈ List.range' 2 (oidcUsernameSuffixes - 1) := by
          rw [List.mem_range'_1]
          unfold oidcUsernameSuffixes at *
          omega
        have htaken := List.find?_eq_none.mp hfind n hmem
        rw [hfree] at htaken
        exact absurd rfl htaken
  · rw [Bool.not_eq_true] at hbase
    rw [if_pos (by rw [hbase]; rfl)]
    exact ⟨.inl rfl, fun _ => hbase⟩

/-- The name of a first sign-in, whatever the provider sends and whichever names are taken. -/
theorem provisioned_name (u : Unicode) (sha256 : GoString → Fin 32 → UInt8)
    (preferredUsername email subject : GoString) (isTaken : GoString → Bool) :
    let base := deriveUsername u sha256 preferredUsername email subject
    let name := uniqueUsername base isTaken
    usernamePattern name ∧ NormalizeUsername u name = .ok name ∧
    ((isTaken base = false ∨ ∃ n, 2 ≤ n ∧ n ≤ oidcUsernameSuffixes ∧
      isTaken (withUsernameSuffix base n) = false) → isTaken name = false) ∧
    ∀ m n, 2 ≤ m → m ≤ oidcUsernameSuffixes → 2 ≤ n → n ≤ oidcUsernameSuffixes → m ≠ n →
      withUsernameSuffix base m ≠ withUsernameSuffix base n := by
  intro base name
  have hbase : usernamePattern base := usernamePattern_deriveUsername ..
  obtain ⟨hform, hfree⟩ := uniqueUsername_cases base isTaken
  have hname : usernamePattern name := by
    rcases hform with heq | ⟨n, hn, heq⟩
    · show usernamePattern (uniqueUsername base isTaken)
      rw [heq]
      exact hbase
    · show usernamePattern (uniqueUsername base isTaken)
      rw [heq]
      exact usernamePattern_withUsernameSuffix hbase hn
  refine ⟨hname, NormalizeUsername_eq u hname, hfree, fun m n _ hm _ hn hne heq => ?_⟩
  exact hne (withUsernameSuffix_inj hbase hm hn heq)

end Purels.Service
