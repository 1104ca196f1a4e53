import Mathlib.Algebra.GroupWithZero.Nat
import Mathlib.Data.List.Nodup
import Mathlib.Algebra.Order.BigOperators.Group.List
import Mathlib.Tactic.Common

/-!
# Counting rows

Totals over a list against the number of its entries that contribute to them.

* `sum_eq_countP_iff`: a total is the number of its positive terms exactly when no term is
  above one.
* `countP_flatMap_map`: pairs counted entry by entry.
* `countP_mem_comm`: what two lists have in common, counted in either.
* `countP_take`: a list whose first entries are those of a kind, cut off.
-/

namespace Purels.Lib

variable {α β : Type*}

theorem countP_pos_le_sum (f : α → ℕ) (l : List α) :
    l.countP (fun a => decide (0 < f a)) ≤ (l.map f).sum := by
  induction l with
  | nil => exact le_rfl
  | cons a l ih =>
    rw [List.countP_cons, List.map_cons, List.sum_cons]
    split_ifs with hpos
    · have hterm := of_decide_eq_true hpos
      omega
    · omega

/-- A total that is the number of its positive terms has no term above one. -/
theorem sum_eq_countP_iff (f : α → ℕ) (l : List α) :
    (l.map f).sum = l.countP (fun a => decide (0 < f a)) ↔ ∀ a ∈ l, f a ≤ 1 := by
  induction l with
  | nil => simp
  | cons a l ih =>
    have hle := countP_pos_le_sum f l
    rw [List.map_cons, List.sum_cons, List.countP_cons, List.forall_mem_cons, ← ih]
    split_ifs with hpos
    · have hterm := of_decide_eq_true hpos
      omega
    · have hzero : ¬ 0 < f a := fun hterm => hpos (decide_eq_true hterm)
      omega

/-- Pairs of two lists, counted entry by entry. -/
theorem countP_flatMap_map {γ : Type*} (l : List α) (m : List β) (g : α → β → γ) (p : γ → Bool) :
    (l.flatMap fun a => m.map (g a)).countP p =
      (l.map fun a => m.countP fun b => p (g a b)).sum := by
  rw [List.countP_flatMap]
  congr 1
  refine List.map_congr_left fun a _ => ?_
  rw [Function.comp_apply, List.countP_map]
  rfl

/-- In an ordered list the entries of a lower kind come first. -/
theorem countP_take {r : α → α → Prop} {p : α → Bool} (hlower : ∀ a b, r a b → p b → p a)
    {l : List α} (h : l.Pairwise r) (n : ℕ) : (l.take n).countP p = min n (l.countP p) := by
  induction l generalizing n with
  | nil => simp
  | cons a l ih =>
    obtain ⟨hfirst, hrest⟩ := List.pairwise_cons.mp h
    cases n with
    | zero => simp
    | succ n =>
      rw [List.take_succ_cons, List.countP_cons, List.countP_cons, ih hrest n]
      by_cases ha : p a = true
      · rw [if_pos ha]
        omega
      · have hnone : l.countP p = 0 :=
          List.countP_eq_zero.mpr fun b hb hpb => ha (hlower a b (hfirst b hb) hpb)
        rw [if_neg ha, hnone]
        omega

variable [BEq α] [LawfulBEq α]

/-- The common entries of two lists without repetitions. -/
theorem countP_mem_comm {l m : List α} (hl : l.Nodup) (hm : m.Nodup) :
    l.countP (fun a => m.contains a) = m.countP fun a => l.contains a := by
  rw [List.countP_eq_length_filter, List.countP_eq_length_filter]
  apply List.Perm.length_eq
  apply (List.perm_ext_iff_of_nodup (hl.filter _) (hm.filter _)).mpr
  intro a
  simp only [List.mem_filter, List.contains_iff_mem]
  exact and_comm

end Purels.Lib
