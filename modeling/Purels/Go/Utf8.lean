import Purels.Go.Strings

/-!
# Valid UTF-8

Which strings are valid, and which stay so when their end is cut off.

* `validString_cons`: a string is valid by its first character and what follows it.
* `validString_of_ascii`.
* `RuneBoundary`: a cut that does not fall into a character; `CutsCleanly`: with characters
  only before it.
* `validString_take_cut` and `validString_take_iff`: which cuts leave a valid string.
-/

namespace Purels.Go

/-- A string is valid when its first character is one and the rest is valid. -/
theorem validString_cons {b : UInt8} {s : GoString} : validString (b :: s) ↔
    decodeRune (b :: s) ≠ (runeError, 1) ∧
      validString ((b :: s).drop (decodeRune (b :: s)).2) := by
  obtain ⟨-, hwidth⟩ := decodeRune_width b s
  have hlength : ((b :: s).take (decodeRune (b :: s)).2).length = (decodeRune (b :: s)).2 := by
    rw [List.length_take]
    omega
  rw [validString, runes_cons, List.all_cons, hlength, Bool.and_eq_true, Bool.not_eq_true',
    Bool.and_eq_false_iff, beq_eq_false_iff_ne, beq_eq_false_iff_ne]
  refine and_congr_left fun _ => ?_
  rw [← not_and_or, Ne, Prod.ext_iff]

theorem validString_ascii_cons {b : UInt8} (hb : b.toNat < 0x80) (s : GoString) :
    validString (b :: s) ↔ validString s := by
  have hdecode : decodeRune (b :: s) = (b.toNat, 1) := by
    unfold decodeRune
    simp only [if_pos hb]
  rw [validString_cons, hdecode, List.drop_one, List.tail_cons]
  refine and_iff_right ?_
  intro heq
  have hcode := (Prod.mk.inj heq).1
  rw [runeError] at hcode
  omega

theorem validString_of_ascii {s : GoString} (h : ∀ b ∈ s, b.toNat < 0x80) : validString s := by
  induction s with
  | nil => rfl
  | cons b s ih =>
    obtain ⟨hb, hrest⟩ := List.forall_mem_cons.mp h
    exact (validString_ascii_cons hb s).mpr (ih hrest)

/-! ## Cutting -/

/-- The first `n` bytes are whole characters. -/
def RuneBoundary (s : GoString) (n : Nat) : Prop := ∃ k, s.take n = ofRunes ((runes s).take k)

/-- A character that is cut off is no character. -/
theorem decodeRune_take_short (s : GoString) {n : Nat} (h1 : 1 ≤ n)
    (hn : n < (decodeRune s).2) : decodeRune (s.take n) = (runeError, 1) := by
  obtain ⟨n, rfl⟩ : ∃ k, n = k + 1 := ⟨n - 1, by omega⟩
  rcases s with _ | ⟨b0, rest⟩
  · simp [decodeRune] at hn
  rw [List.take_succ_cons]
  rcases n with _ | _ | _ | n
  all_goals
    rcases rest with _ | ⟨b1, _ | ⟨b2, _ | ⟨b3, rest⟩⟩⟩ <;>
      simp only [decodeRune, List.take_nil, List.take_succ_cons, List.take_zero] at hn ⊢ <;>
      split_ifs at hn ⊢ <;> first | (exfalso; dsimp only at hn; omega) | rfl

/-- A byte that is no character. -/
def Rune.Broken (r : Rune) : Prop := r.code = runeError ∧ r.bytes.length = 1

/-- The first `n` bytes are characters, and all of them are whole. -/
def CutsCleanly (s : GoString) (n : Nat) : Prop :=
  ∃ k, s.take n = ofRunes ((runes s).take k) ∧ ∀ r ∈ (runes s).take k, ¬ r.Broken

theorem validString_iff {s : GoString} : validString s ↔ ∀ r ∈ runes s, ¬ r.Broken := by
  rw [validString, List.all_eq_true]
  refine forall₂_congr fun r _ => ?_
  rw [Bool.not_eq_true', Bool.and_eq_false_iff, beq_eq_false_iff_ne, beq_eq_false_iff_ne,
    ← not_and_or]
  rfl

/-- The first character of a string is broken when it does not decode. -/
theorem broken_cons_iff {b : UInt8} {s : GoString} :
    Rune.Broken ⟨(decodeRune (b :: s)).1, (b :: s).take (decodeRune (b :: s)).2⟩ ↔
      decodeRune (b :: s) = (runeError, 1) := by
  obtain ⟨-, hwidth⟩ := decodeRune_width b s
  rw [Rune.Broken, List.length_take, Nat.min_eq_left hwidth, Prod.ext_iff]

/-- Cutting a string leaves a valid one exactly when the cut is clean. -/
theorem validString_take_cut (s : GoString) (n : Nat) : validString (s.take n) ↔ CutsCleanly s n := by
  obtain ⟨m, hm⟩ : ∃ m, s.length ≤ m := ⟨_, le_rfl⟩
  induction m generalizing s n with
  | zero =>
    obtain rfl : s = [] := List.length_eq_zero_iff.mp (by omega)
    rw [List.take_nil]
    exact iff_of_true rfl ⟨0, by simp⟩
  | succ m ih =>
    rcases s with _ | ⟨b, s⟩
    · rw [List.take_nil]
      exact iff_of_true rfl ⟨0, by simp⟩
    rcases Nat.eq_zero_or_pos n with rfl | hpos
    · exact iff_of_true rfl ⟨0, by simp⟩
    obtain ⟨hw1, hw2⟩ := decodeRune_width b s
    have hcons : ∃ t, (b :: s).take n = b :: t := ⟨s.take (n - 1), by
      obtain ⟨n, rfl⟩ : ∃ k, n = k + 1 := ⟨n - 1, by omega⟩
      rfl⟩
    obtain ⟨t, ht⟩ := hcons
    by_cases hshort : n < (decodeRune (b :: s)).2
    · -- The cut falls into the first character.
      have hbad := decodeRune_take_short (b :: s) hpos hshort
      refine iff_of_false ?_ ?_
      · rw [ht] at hbad ⊢
        exact fun hvalid => (validString_cons.mp hvalid).1 hbad
      · rintro ⟨k, hk, -⟩
        have hlength := congrArg List.length hk
        rw [List.length_take] at hlength
        rcases k with _ | k
        · simp at hlength
          omega
        · rw [runes_cons, List.take_succ_cons, ofRunes_cons, List.length_append,
            List.length_take] at hlength
          omega
    · -- The first character stays, and the cut is one of the rest.
      have hwhole : decodeRune ((b :: s).take n) = decodeRune (b :: s) :=
        decodeRune_take (b :: s) hpos (by omega)
      have hdrop : ((b :: s).drop (decodeRune (b :: s)).2).length ≤ m := by
        rw [List.length_drop]
        omega
      have htail := ih ((b :: s).drop (decodeRune (b :: s)).2) (n - (decodeRune (b :: s)).2) hdrop
      have hsplit : ((b :: s).take n).drop (decodeRune (b :: s)).2 =
          ((b :: s).drop (decodeRune (b :: s)).2).take (n - (decodeRune (b :: s)).2) :=
        List.drop_take ..
      have hvalid : validString ((b :: s).take n) ↔
          decodeRune (b :: s) ≠ (runeError, 1) ∧
            validString (((b :: s).drop (decodeRune (b :: s)).2).take
              (n - (decodeRune (b :: s)).2)) := by
        rw [← hsplit, ← hwhole, ht, validString_cons, ← ht, hwhole]
      have hprefix : (b :: s).take n = (b :: s).take (decodeRune (b :: s)).2 ++
          ((b :: s).drop (decodeRune (b :: s)).2).take (n - (decodeRune (b :: s)).2) := by
        have hparts := List.take_append_drop (decodeRune (b :: s)).2 ((b :: s).take n)
        rw [List.take_take, Nat.min_eq_left (by omega), hsplit] at hparts
        exact hparts.symm
      rw [hvalid, htail]
      constructor
      · rintro ⟨hfirst, k, hk, hrest⟩
        refine ⟨k + 1, ?_, ?_⟩
        · rw [runes_cons, List.take_succ_cons, ofRunes_cons, ← hk, hprefix]
        · rw [runes_cons, List.take_succ_cons, List.forall_mem_cons, broken_cons_iff]
          exact ⟨hfirst, hrest⟩
      · rintro ⟨k, hk, hrest⟩
        rcases k with _ | k
        · rw [ht] at hk
          cases hk
        · rw [runes_cons, List.take_succ_cons, ofRunes_cons, hprefix] at hk
          rw [runes_cons, List.take_succ_cons, List.forall_mem_cons, broken_cons_iff] at hrest
          exact ⟨hrest.1, k, List.append_cancel_left hk, hrest.2⟩

/-- Cutting a valid string leaves a valid one exactly at a boundary. -/
theorem validString_take_iff {s : GoString} (h : validString s) (n : Nat) :
    validString (s.take n) ↔ RuneBoundary s n := by
  rw [validString_take_cut]
  constructor
  · rintro ⟨k, hk, -⟩
    exact ⟨k, hk⟩
  · rintro ⟨k, hk⟩
    exact ⟨k, hk, fun r hr => validString_iff.mp h r (List.mem_of_mem_take hr)⟩

end Purels.Go
