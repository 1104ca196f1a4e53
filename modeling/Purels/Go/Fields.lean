import Purels.Go.NetIP

/-!
# Fields of a text

How `strings.TrimSpace`, `strings.Cut` and `strings.Split` go together.

* `dropWhile_append_cons`, `rdropWhile_append_cons`, `dropWhile_rdropWhile`: dropping at the two
  ends of a list.
* `trimSpace_append`, `trimSpace_cut`: to trim a text is to trim its parts.
* `cut_append`, `split_eq`: cutting and splitting.
-/

namespace Purels.Go

/-! ## Two ends of a list -/

/-- It does not matter which end is trimmed first. -/
theorem dropWhile_rdropWhile {α : Type*} (p : α → Bool) (l : List α) :
    (l.rdropWhile p).dropWhile p = (l.dropWhile p).rdropWhile p := by
  induction l using List.reverseRecOn with
  | nil => rfl
  | append_singleton l x ih =>
    rw [List.rdropWhile_concat, List.dropWhile_append]
    by_cases hx : p x
    · rw [if_pos hx, ih]
      split_ifs with hnil
      · rw [List.isEmpty_iff.mp hnil, List.dropWhile_cons_of_pos hx]
        rfl
      · rw [List.rdropWhile_concat_pos _ _ _ hx]
    · rw [if_neg hx, List.dropWhile_append]
      split_ifs with hnil
      · rw [List.dropWhile_cons_of_neg hx, List.rdropWhile_singleton, if_neg hx]
      · rw [List.rdropWhile_concat_neg _ _ _ hx]

/-- What is dropped at the end stands after the last element that stays. -/
theorem rdropWhile_append_cons {α : Type*} {p : α → Bool} {x : α} (hx : ¬ p x) (l m : List α) :
    (l ++ x :: m).rdropWhile p = l ++ x :: m.rdropWhile p := by
  induction m using List.reverseRecOn with
  | nil =>
    rw [List.rdropWhile_nil]
    exact List.rdropWhile_concat_neg _ _ _ hx
  | append_singleton m y ih =>
    rw [← List.cons_append, ← List.append_assoc, List.rdropWhile_concat, List.rdropWhile_concat]
    split_ifs
    · exact ih
    · rw [List.append_assoc, List.cons_append]

theorem dropWhile_append_cons {α : Type*} {p : α → Bool} {x : α} (hx : ¬ p x) (l m : List α) :
    (l ++ x :: m).dropWhile p = l.dropWhile p ++ x :: m := by
  rw [List.dropWhile_append]
  split_ifs with hnil
  · rw [List.isEmpty_iff.mp hnil, List.dropWhile_cons_of_neg hx]
    rfl
  · rfl

/-! ## Trimming and cutting -/

/-- What is before and after the first `c`. -/
theorem cut_append {c : UInt8} {s t : GoString} (h : c ∉ s) : cut c (s ++ c :: t) = (s, t) := by
  have hne : ∀ b ∈ s, (b != c) = true := fun b hb => bne_iff_ne.mpr fun heq => h (heq ▸ hb)
  rw [cut, List.takeWhile_append_of_pos hne, List.dropWhile_append_of_pos hne,
    List.takeWhile_cons_of_neg (by simp), List.dropWhile_cons_of_neg (by simp)]
  simp

/-- A separator in the middle shares out the trimming: what is before it is trimmed on the left,
and what is after it on the right. -/
theorem trimSpace_append {c : UInt8} (hc : c.toNat < 0x80) (hspace : isSpace c.toNat = false)
    (s t : GoString) :
    ∃ s' t', trimSpace (s ++ c :: t) = s' ++ c :: t' ∧ trimSpace s' = trimSpace s ∧
      trimSpace t' = trimSpace t ∧ s' <:+: s := by
  have hrune : ¬ (fun r : Rune => isSpace r.code) ⟨c.toNat, [c]⟩ = true := by simpa using hspace
  refine ⟨ofRunes ((runes s).dropWhile fun r => isSpace r.code),
    ofRunes ((runes t).rdropWhile fun r => isSpace r.code), ?_, ?_, ?_, ?_⟩
  · rw [trimSpace, runes_append_ascii hc, runes_ascii_cons hc,
      dropWhile_append_cons (p := fun r : Rune => isSpace r.code) hrune,
      rdropWhile_append_cons (p := fun r : Rune => isSpace r.code) hrune, ofRunes_append]
    rfl
  · rw [trimSpace, runes_ofRunes_end (List.dropWhile_suffix _), List.dropWhile_idempotent,
      trimSpace]
  · rw [trimSpace, runes_ofRunes_start (List.rdropWhile_prefix _ _), dropWhile_rdropWhile,
      List.rdropWhile_idempotent, trimSpace]
  · obtain ⟨before, hbefore⟩ :=
      List.dropWhile_suffix (fun r : Rune => isSpace r.code) (l := runes s)
    refine ⟨ofRunes before, [], ?_⟩
    rw [List.append_nil, ← ofRunes_append, hbefore, ofRunes_runes]

/-- A separator survives the trimming. -/
theorem mem_trimSpace_iff {c : UInt8} (hc : c.toNat < 0x80) (hspace : isSpace c.toNat = false)
    {s : GoString} : c ∈ trimSpace s ↔ c ∈ s := by
  constructor
  · intro h
    have hwithin := trimSpace_infix s
    exact hwithin.subset h
  · intro h
    obtain ⟨before, after, rfl⟩ := List.append_of_mem h
    obtain ⟨s', t', htrim, -⟩ := trimSpace_append hc hspace before after
    rw [htrim]
    exact List.mem_append_right _ List.mem_cons_self

/-- To trim before a cut changes nothing once the two parts are trimmed. -/
theorem trimSpace_cut {c : UInt8} (hc : c.toNat < 0x80) (hspace : isSpace c.toNat = false)
    {s : GoString} (h : c ∈ s) :
    trimSpace (cut c (trimSpace s)).1 = trimSpace (cut c s).1 ∧
      trimSpace (cut c (trimSpace s)).2 = trimSpace (cut c s).2 := by
  obtain ⟨before, after, rfl, hnot⟩ := List.eq_append_cons_of_mem h
  obtain ⟨s', t', htrim, hbefore, hafter, hwithin⟩ := trimSpace_append hc hspace before after
  rw [htrim, cut_append fun hmem => hnot (hwithin.subset hmem), cut_append hnot]
  exact ⟨hbefore, hafter⟩

/-- The fields of a split are cut off one by one. -/
theorem split_eq (c : UInt8) (s : GoString) :
    split c s = (cut c s).1 :: (if c ∈ s then split c (cut c s).2 else []) := by
  induction s with
  | nil => rfl
  | cons b s ih =>
    by_cases hb : b = c
    · subst hb
      simp [split, cut]
    · have hcut : cut c (b :: s) = (b :: (cut c s).1, (cut c s).2) := by
        simp [cut, hb]
      rw [split, if_neg hb, ih, hcut]
      simp [Ne.symm hb]

end Purels.Go
