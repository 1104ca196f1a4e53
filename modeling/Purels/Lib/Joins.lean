import Mathlib.Algebra.BigOperators.Group.List.Lemmas
import Mathlib.Data.List.Nodup
import Mathlib.Data.List.Sort
import Mathlib.Algebra.GroupWithZero.Nat
import Mathlib.Tactic.Common

/-!
# Joins and groups

Rows joined to a table by its key, and rows counted group by group.

* `join_filter`: a join that only asks for a row is a filter.
* `map_fst_join`: so is one whose row is dropped.
* `sum_tallies`: the groups that a table has together count the rows that fall in one of them.
-/

namespace Purels.Lib

variable {α β κ : Type*}

/-- Rows of one kind or of another. -/
theorem countP_or {p q : α → Bool} (hdisjoint : ∀ a, p a → ¬ q a) (l : List α) :
    l.countP p + l.countP q = l.countP fun a => p a || q a := by
  induction l with
  | nil => rfl
  | cons a l ih =>
    rw [List.countP_cons, List.countP_cons, List.countP_cons, ← ih]
    cases hp : p a with
    | false =>
      simp only [Bool.false_or, Bool.false_eq_true, if_false]
      omega
    | true =>
      have hq : q a = false := Bool.eq_false_of_not_eq_true (hdisjoint a hp)
      simp only [hq, Bool.or_false, Bool.false_eq_true, if_false, if_true]
      omega

variable [BEq κ] [LawfulBEq κ] {key : β → κ} {f : α → κ}

/-- At most one row of a table has a key. -/
theorem filter_key {table : List β} (hnodup : (table.map key).Nodup) (k : κ) :
    (table.filter fun b => key b == k).length = if table.any fun b => key b == k then 1 else 0 := by
  induction table with
  | nil => rfl
  | cons b table ih =>
    obtain ⟨hnot, hrest⟩ := List.nodup_cons.mp hnodup
    rw [List.filter_cons, List.any_cons]
    by_cases hb : key b = k
    · have hnone : (table.any fun b => key b == k) = false := by
        rw [List.any_eq_false]
        intro c hc heq
        exact hnot (hb ▸ (beq_iff_eq.mp heq) ▸ List.mem_map_of_mem hc)
      have hbeq : (key b == k) = true := beq_iff_eq.mpr hb
      rw [if_pos hbeq, List.length_cons, ih hrest, hnone, hbeq]
      rfl
    · have hbeq : (key b == k) = false := beq_eq_false_iff_ne.mpr hb
      rw [hbeq, if_neg Bool.false_ne_true, ih hrest, Bool.false_or]

/-- A join that only asks whether there is a row. -/
theorem join_filter {table : List β} (hnodup : (table.map key).Nodup) (rows : List α) :
    (rows.flatMap fun a => (table.filter fun b => key b == f a).map fun _ => a) =
      rows.filter fun a => table.any fun b => key b == f a := by
  induction rows with
  | nil => rfl
  | cons a rows ih =>
    have hone := filter_key hnodup (f a)
    rw [List.flatMap_cons, ih, List.filter_cons]
    by_cases hany : table.any fun b => key b == f a
    · rw [if_pos hany] at hone ⊢
      obtain ⟨b, hb⟩ := List.length_eq_one_iff.mp hone
      rw [hb]
      rfl
    · rw [if_neg hany] at hone ⊢
      rw [List.eq_nil_of_length_eq_zero hone]
      rfl

/-- A join whose row is dropped. -/
theorem map_fst_join {table : List β} (hnodup : (table.map key).Nodup) (rows : List α) :
    (rows.flatMap fun a => (table.filter fun b => key b == f a).map fun b => (a, b)).map Prod.fst =
      rows.filter fun a => table.any fun b => key b == f a := by
  rw [← join_filter hnodup rows, List.map_flatMap]
  refine List.flatMap_congr fun a _ => ?_
  rw [List.map_map]
  rfl

/-- The tallies of the groups of a table. -/
theorem sum_tallies {table : List β} (hnodup : (table.map key).Nodup) (p : α → Bool)
    (rows : List α) :
    (table.map fun b => rows.countP fun a => p a && f a == key b).sum =
      rows.countP fun a => p a && (table.map key).contains (f a) := by
  induction table with
  | nil => simp
  | cons b table ih =>
    obtain ⟨hnot, hrest⟩ := List.nodup_cons.mp hnodup
    have hdisjoint : ∀ a, (p a && f a == key b) →
        ¬ (p a && (table.map key).contains (f a)) = true := by
      intro a hhere hthere
      have hkey := beq_iff_eq.mp (Bool.and_eq_true_iff.mp hhere).2
      rw [hkey, Bool.and_eq_true, List.contains_iff_mem] at hthere
      exact hnot hthere.2
    rw [List.map_cons, List.sum_cons, ih hrest, countP_or hdisjoint]
    refine List.countP_congr fun a _ => ?_
    simp only [List.map_cons, List.contains_cons, ← Bool.and_or_distrib_left]

end Purels.Lib
