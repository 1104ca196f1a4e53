import Mathlib.Data.List.Infix
import Mathlib.Data.List.TakeWhile
import Mathlib.Tactic.Common

/-!
# Anchored patterns

The forms of regular expressions over character codes that identifiers and base
URLs are checked with.  Such a pattern is anchored at both ends, and its parts are
told apart by the characters they take, so that one reading of the text decides it.

* Character classes: `isUpperCode`, `isLowerCode`, `isDigitCode`, `isAlnumCode`.
* `headed`: a fixed head and a repeated class.
* `edged`: a run of a class that begins and ends in a smaller one.
* `baseURL`: an absolute address with a host, a port and a path.
* `headed_forall`, `headed_length`, `baseURL_forall`: what a match says of its text.
-/

namespace Purels.Lib

/-! ## Classes -/

/-- `[A-Z]`. -/
def isUpperCode (c : Nat) : Bool := decide (0x41 ≤ c ∧ c ≤ 0x5A)

/-- `[a-z]`. -/
def isLowerCode (c : Nat) : Bool := decide (0x61 ≤ c ∧ c ≤ 0x7A)

/-- `[0-9]`. -/
def isDigitCode (c : Nat) : Bool := decide (0x30 ≤ c ∧ c ≤ 0x39)

/-- `[A-Za-z0-9]`. -/
def isAlnumCode (c : Nat) : Bool := isUpperCode c || isLowerCode c || isDigitCode c

/-- A visible character of ASCII. -/
def Visible (c : Nat) : Prop := 0x21 ≤ c ∧ c ≤ 0x7E

instance (c : Nat) : Decidable (Visible c) := by unfold Visible; infer_instance

theorem visible_of_isUpperCode {c : Nat} (h : isUpperCode c) : Visible c := by
  have hrange : 0x41 ≤ c ∧ c ≤ 0x5A := of_decide_eq_true h
  exact ⟨by omega, by omega⟩

theorem visible_of_isLowerCode {c : Nat} (h : isLowerCode c) : Visible c := by
  have hrange : 0x61 ≤ c ∧ c ≤ 0x7A := of_decide_eq_true h
  exact ⟨by omega, by omega⟩

theorem visible_of_isDigitCode {c : Nat} (h : isDigitCode c) : Visible c := by
  have hrange : 0x30 ≤ c ∧ c ≤ 0x39 := of_decide_eq_true h
  exact ⟨by omega, by omega⟩

theorem visible_of_isAlnumCode {c : Nat} (h : isAlnumCode c) : Visible c := by
  rcases Bool.or_eq_true_iff.mp h with hletter | hdigit
  · rcases Bool.or_eq_true_iff.mp hletter with hupper | hlower
    · exact visible_of_isUpperCode hupper
    · exact visible_of_isLowerCode hlower
  · exact visible_of_isDigitCode hdigit

/-! ## A head and a repeated class -/

/-- `^head[member]{low,high}$`. -/
def headed (head : List Nat) (member : Nat → Bool) (low high : Nat) (s : List Nat) : Bool :=
  head.isPrefixOf s && (s.drop head.length).all member &&
    decide (low ≤ (s.drop head.length).length ∧ (s.drop head.length).length ≤ high)

section

variable {head s : List Nat} {member : Nat → Bool} {low high : Nat}

theorem headed_iff : headed head member low high s ↔
    ∃ tail, s = head ++ tail ∧ (∀ c ∈ tail, member c) ∧ low ≤ tail.length ∧ tail.length ≤ high := by
  unfold headed
  rw [Bool.and_eq_true, Bool.and_eq_true, List.isPrefixOf_iff_prefix, List.all_eq_true,
    decide_eq_true_iff]
  constructor
  · rintro ⟨⟨⟨tail, rfl⟩, hmember⟩, hlength⟩
    rw [List.drop_left] at hmember hlength
    exact ⟨tail, rfl, hmember, hlength⟩
  · rintro ⟨tail, rfl, hmember, hlength⟩
    rw [List.drop_left]
    exact ⟨⟨List.prefix_append head tail, hmember⟩, hlength⟩

/-- What holds of the head and of the class holds of every character. -/
theorem headed_forall {P : Nat → Prop} (h : headed head member low high s)
    (hhead : ∀ c ∈ head, P c) (hmember : ∀ c, member c → P c) : ∀ c ∈ s, P c := by
  obtain ⟨tail, rfl, htail, -⟩ := headed_iff.mp h
  intro c hc
  rcases List.mem_append.mp hc with hin | hin
  · exact hhead c hin
  · exact hmember c (htail c hin)

theorem headed_length (h : headed head member low high s) : s.length ≤ head.length + high := by
  obtain ⟨tail, rfl, -, -, hhigh⟩ := headed_iff.mp h
  rw [List.length_append]
  omega

end

/-! ## Base URLs -/

/-- `[edge](?:[inner]*[edge])?`, for an `edge` within `inner`. -/
def edged (edge inner : Nat → Bool) (s : List Nat) : Bool :=
  s.head?.any edge && s.getLast?.any edge && s.all inner

/-- `(?:/[member]*)?$`. -/
def pathForm (member : Nat → Bool) : List Nat → Bool
  | [] => true
  | c :: s => c == 0x2F && s.all member

/-- `(?::\d{1,5})?(?:/[member]*)?$`. -/
def portForm (member : Nat → Bool) : List Nat → Bool
  | 0x3A :: s =>
    decide (1 ≤ (s.takeWhile isDigitCode).length ∧ (s.takeWhile isDigitCode).length ≤ 5) &&
      pathForm member (s.dropWhile isDigitCode)
  | s => pathForm member s

/-- `[A-Za-z0-9](?:[A-Za-z0-9.-]*[A-Za-z0-9])?(?::\d{1,5})?(?:/[member]*)?$`.  A colon or a
slash is not a character of the host, so the host is as long as it can be. -/
def hostForm (member : Nat → Bool) (s : List Nat) : Bool :=
  let inner (c : Nat) : Bool := isAlnumCode c || c == 0x2E || c == 0x2D
  edged isAlnumCode inner (s.takeWhile inner) && portForm member (s.dropWhile inner)

/-- `^https?://` and the host, the port and the path. -/
def baseURL (member : Nat → Bool) : List Nat → Bool
  | 0x68 :: 0x74 :: 0x74 :: 0x70 :: 0x73 :: 0x3A :: 0x2F :: 0x2F :: s => hostForm member s
  | 0x68 :: 0x74 :: 0x74 :: 0x70 :: 0x3A :: 0x2F :: 0x2F :: s => hostForm member s
  | _ => false

/-- Such an address begins with one of the two schemes. -/
theorem baseURL_scheme {member : Nat → Bool} {s : List Nat} (h : baseURL member s) :
    ∃ rest, s = [0x68, 0x74, 0x74, 0x70, 0x73, 0x3A, 0x2F, 0x2F] ++ rest ∨
      s = [0x68, 0x74, 0x74, 0x70, 0x3A, 0x2F, 0x2F] ++ rest := by
  unfold baseURL at h
  split at h
  · rename_i rest
    exact ⟨rest, Or.inl rfl⟩
  · rename_i rest
    exact ⟨rest, Or.inr rfl⟩
  · cases h

section

variable {member : Nat → Bool} (hmember : ∀ c, member c → Visible c)
include hmember

theorem pathForm_forall {s : List Nat} (h : pathForm member s) : ∀ c ∈ s, Visible c := by
  cases s with
  | nil => exact List.forall_mem_nil _
  | cons c s =>
    obtain ⟨hslash, hrest⟩ := Bool.and_eq_true_iff.mp h
    refine List.forall_mem_cons.mpr ⟨?_, fun d hd => hmember d (List.all_eq_true.mp hrest d hd)⟩
    rw [beq_iff_eq.mp hslash]
    exact ⟨by decide, by decide⟩

theorem portForm_forall {s : List Nat} (h : portForm member s) : ∀ c ∈ s, Visible c := by
  unfold portForm at h
  split at h
  · rename_i s
    obtain ⟨-, hpath⟩ := Bool.and_eq_true_iff.mp h
    refine List.forall_mem_cons.mpr ⟨⟨by decide, by decide⟩, fun c hc => ?_⟩
    rw [← List.takeWhile_append_dropWhile (p := isDigitCode) (l := s)] at hc
    rcases List.mem_append.mp hc with hdigit | hrest
    · exact visible_of_isDigitCode (List.mem_takeWhile_imp hdigit)
    · exact pathForm_forall hmember hpath c hrest
  · exact pathForm_forall hmember h

theorem hostForm_forall {s : List Nat} (h : hostForm member s) : ∀ c ∈ s, Visible c := by
  unfold hostForm at h
  dsimp only at h
  obtain ⟨-, hport⟩ := Bool.and_eq_true_iff.mp h
  intro c hc
  rw [← List.takeWhile_append_dropWhile (p := fun c => isAlnumCode c || c == 0x2E || c == 0x2D)
    (l := s)] at hc
  rcases List.mem_append.mp hc with hhost | hrest
  · have hinner := List.mem_takeWhile_imp hhost
    simp only [Bool.or_eq_true, beq_iff_eq] at hinner
    rcases hinner with (halnum | rfl) | rfl
    · exact visible_of_isAlnumCode halnum
    · exact ⟨by decide, by decide⟩
    · exact ⟨by decide, by decide⟩
  · exact portForm_forall hmember hport c hrest

/-- Every character of such an address is visible. -/
theorem baseURL_forall {s : List Nat} (h : baseURL member s) : ∀ c ∈ s, Visible c := by
  unfold baseURL at h
  split at h
  · rename_i s
    have hrest := hostForm_forall hmember h
    simp only [List.forall_mem_cons]
    exact ⟨⟨by decide, by decide⟩, ⟨by decide, by decide⟩, ⟨by decide, by decide⟩,
      ⟨by decide, by decide⟩, ⟨by decide, by decide⟩, ⟨by decide, by decide⟩,
      ⟨by decide, by decide⟩, ⟨by decide, by decide⟩, hrest⟩
  · rename_i s
    have hrest := hostForm_forall hmember h
    simp only [List.forall_mem_cons]
    exact ⟨⟨by decide, by decide⟩, ⟨by decide, by decide⟩, ⟨by decide, by decide⟩,
      ⟨by decide, by decide⟩, ⟨by decide, by decide⟩, ⟨by decide, by decide⟩,
      ⟨by decide, by decide⟩, hrest⟩
  · cases h

end

end Purels.Lib
