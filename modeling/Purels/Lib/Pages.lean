import Mathlib.Data.List.Perm.Subperm
import Mathlib.Data.List.Sort
import Mathlib.Tactic.Common

/-!
# Pages of a sorted table

A table is sorted and cut into pages of one size, which are asked for by their offset.

* `page`: the rows of a page.
* `rank`: the rows that come before a row.
* `mem_page`: a row is on the page that its rank falls on.
* `pages_cover`: whoever reads page after page misses no row, when rows are only added between.
-/

namespace Purels.Lib

variable {α : Type*} {le : α → α → Bool}

/-- The rows of a page. -/
def page (le : α → α → Bool) (rows : List α) (limit offset : ℕ) : List α :=
  ((rows.mergeSort le).drop offset).take limit

/-- The rows that come before a row. -/
def rank (le : α → α → Bool) (rows : List α) (x : α) : ℕ := rows.countP fun y => le y x && !le x y

/-- How a table is sorted: any two rows compare, and no two different ones both ways. -/
structure Sorts (le : α → α → Bool) (rows : List α) : Prop where
  trans : ∀ a b c, le a b → le b c → le a c
  total : ∀ a b, le a b || le b a
  antisymm : ∀ a ∈ rows, ∀ b ∈ rows, le a b → le b a → a = b
  nodup : rows.Nodup

/-- The rank of a row is its position. -/
theorem rank_eq {before after : List α} {x : α} (hsorted : (before ++ x :: after).Pairwise (le · ·))
    (hanti : ∀ a ∈ before ++ x :: after, le a x → le x a → a = x)
    (hnodup : (before ++ x :: after).Nodup) :
    rank le (before ++ x :: after) x = before.length := by
  obtain ⟨-, hlater, hbefore⟩ := List.pairwise_append.mp hsorted
  have hnot : x ∉ before := fun hx =>
    (List.nodup_append.mp hnodup).2.2 x hx x List.mem_cons_self rfl
  have hall : ∀ a ∈ before, (le a x && !le x a) = true := by
    intro a ha
    have hle : le a x = true := hbefore a ha x List.mem_cons_self
    have hne : le x a = false := by
      apply Bool.eq_false_of_not_eq_true
      intro hback
      exact hnot (hanti a (List.mem_append_left _ ha) hle hback ▸ ha)
    simp [hle, hne]
  have hnone : ∀ a ∈ x :: after, ¬ (le a x && !le x a) = true := by
    intro a ha
    rcases List.mem_cons.mp ha with rfl | hafter
    · simp
    · have hle : le x a = true := List.rel_of_pairwise_cons hlater hafter
      simp [hle]
  rw [rank, List.countP_append, List.countP_eq_length.mpr hall, List.countP_eq_zero.mpr hnone]
  omega

/-- The rank of a row is its position in the sorted table. -/
theorem getElem?_rank {rows : List α} (hrows : Sorts le rows) {x : α} (hx : x ∈ rows) :
    (rows.mergeSort le)[rank le rows x]? = some x := by
  have hperm := List.mergeSort_perm rows le
  obtain ⟨before, after, hsplit⟩ := List.append_of_mem (hperm.mem_iff.mpr hx)
  have hsorted := List.pairwise_mergeSort hrows.trans hrows.total rows
  have hrank : rank le (rows.mergeSort le) x = rank le rows x := hperm.countP_eq _
  have hanti : ∀ a ∈ rows.mergeSort le, le a x → le x a → a = x := fun a ha =>
    hrows.antisymm a (hperm.mem_iff.mp ha) x hx
  have hnodup := hperm.nodup_iff.mpr hrows.nodup
  rw [hsplit] at hsorted hrank hanti hnodup ⊢
  rw [← hrank, rank_eq hsorted hanti hnodup]
  simp

/-- A row is on the page that its rank falls on. -/
theorem mem_page {rows : List α} (hrows : Sorts le rows) (limit offset : ℕ) (x : α) :
    x ∈ page le rows limit offset ↔
      x ∈ rows ∧ offset ≤ rank le rows x ∧ rank le rows x < offset + limit := by
  have hperm := List.mergeSort_perm rows le
  have hnodup : (rows.mergeSort le).Nodup := hperm.nodup_iff.mpr hrows.nodup
  constructor
  · intro hpage
    have hx : x ∈ rows := hperm.mem_iff.mp (List.mem_of_mem_drop (List.mem_of_mem_take hpage))
    obtain ⟨j, hj⟩ := List.mem_iff_getElem?.mp hpage
    rw [page, List.getElem?_take, Option.ite_none_right_eq_some, List.getElem?_drop] at hj
    obtain ⟨hlimit, hat⟩ := hj
    obtain ⟨hlength, -⟩ := List.getElem?_eq_some_iff.mp hat
    have hsame : offset + j = rank le rows x :=
      (List.getElem?_inj hlength hnodup).mp (hat.trans (getElem?_rank hrows hx).symm)
    exact ⟨hx, by omega, by omega⟩
  · intro ⟨hx, hfrom, hto⟩
    refine List.mem_iff_getElem?.mpr ⟨rank le rows x - offset, ?_⟩
    rw [page, List.getElem?_take, if_pos (by omega), List.getElem?_drop,
      Nat.add_sub_cancel' hfrom]
    exact getElem?_rank hrows hx

/-- A table that ends on a page has no row of a higher rank. -/
theorem rank_lt_length {rows : List α} {x : α} (hx : x ∈ rows) : rank le rows x < rows.length := by
  refine Nat.lt_of_le_of_ne List.countP_le_length fun hall => ?_
  have hself := List.countP_eq_length.mp hall x hx
  simp at hself

/-- Whoever reads page after page misses no row that was there when the reading began, when rows
are only added between the pages and the reading goes on to the end. -/
theorem pages_cover {tables : ℕ → List α} (hrows : ∀ k, Sorts le (tables k))
    (hgrow : ∀ k, (tables k).Subperm (tables (k + 1))) {limit : ℕ} {x : α} (hx : x ∈ tables 0)
    {n : ℕ} (hend : (tables n).length ≤ (n + 1) * limit) :
    ∃ k ≤ n, x ∈ page le (tables k) limit (k * limit) := by
  have hstays : ∀ k, x ∈ tables k := by
    intro k
    induction k with
    | zero => exact hx
    | succ k ih => exact (hgrow k).subset ih
  have hlast : rank le (tables n) x < (n + 1) * limit :=
    Nat.lt_of_lt_of_le (rank_lt_length (hstays n)) hend
  clear hend
  induction n with
  | zero => exact ⟨0, le_rfl, (mem_page (hrows 0) ..).mpr ⟨hx, by omega, by omega⟩⟩
  | succ n ih =>
    by_cases hreached : (n + 1) * limit ≤ rank le (tables (n + 1)) x
    · refine ⟨n + 1, le_rfl, (mem_page (hrows _) ..).mpr ⟨hstays _, hreached, ?_⟩⟩
      rwa [Nat.add_mul, Nat.one_mul] at hlast
    · -- the row has not moved forward since the page before
      have hback : rank le (tables n) x ≤ rank le (tables (n + 1)) x := (hgrow n).countP_le _
      obtain ⟨k, hk, hpage⟩ := ih (by omega)
      exact ⟨k, by omega, hpage⟩

end Purels.Lib
