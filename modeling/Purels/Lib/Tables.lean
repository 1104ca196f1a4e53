import Mathlib.Data.List.Nodup
import Mathlib.Tactic.Common

/-!
# Tables and logs

A table is a list of rows, with a key for each, and a log is a list that grows at its
end and is changed in place.

* `map_if_of_find?_none`, `nodup_keys_map`: conditional updates of a table.
* `lookup` and `put`: the row of a key, with `lookup_put` and `lookup_foldl_put`.
* `countP_modify`: what a change in one place does to a count.
* `map_modify_of_eq`, `mem_modify`: what it leaves of the entries.
-/

namespace Purels.Lib

variable {α : Type*}

/-! ## Tables -/

/-- A conditional update that finds no row changes none. -/
theorem map_if_of_find?_none {p : α → Bool} {set : α → α} {l : List α} (h : l.find? p = none) :
    (l.map fun a => if p a then set a else a) = l := by
  have hsame : ∀ a ∈ l, (if p a then set a else a) = a := fun a ha =>
    if_neg (List.find?_eq_none.mp h a ha)
  rw [List.map_congr_left hsame, List.map_id']

/-- An update that keeps the keys keeps them unique. -/
theorem nodup_keys_map {κ : Type*} {key : α → κ} {set : α → α} {l : List α}
    (h : (l.map key).Nodup) (hset : ∀ a ∈ l, key (set a) = key a) :
    ((l.map set).map key).Nodup := by
  have hkeys : (l.map set).map key = l.map key := by
    rw [List.map_map]
    exact List.map_congr_left hset
  exact hkeys ▸ h

section

variable {κ : Type*} [DecidableEq κ] (key : α → κ)

/-- The row of a key. -/
def lookup (l : List α) (k : κ) : Option α := l.find? fun a => key a == k

/-- A row takes the place of the one with its key, or is added. -/
def put (l : List α) (a : α) : List α :=
  if l.any fun b => key b == key a then l.map fun b => if key b == key a then a else b
  else l ++ [a]

variable {key}

theorem lookup_eq_some {l : List α} {k : κ} {a : α} (h : lookup key l k = some a) :
    a ∈ l ∧ key a = k :=
  ⟨List.mem_of_find?_eq_some h, by simpa using List.find?_some h⟩

theorem lookup_eq_none {l : List α} {k : κ} : lookup key l k = none ↔ k ∉ l.map key := by
  rw [lookup, List.find?_eq_none, List.mem_map]
  constructor
  · rintro h ⟨a, ha, rfl⟩
    exact h a ha (by simp)
  · rintro h a ha heq
    exact h ⟨a, ha, by simpa using heq⟩

theorem lookup_cons (a : α) (l : List α) (k : κ) :
    lookup key (a :: l) k = if key a = k then some a else lookup key l k := by
  rw [lookup, List.find?_cons]
  by_cases hkey : key a = k
  · simp [hkey]
  · rw [beq_eq_false_iff_ne.mpr hkey, if_neg hkey]
    rfl

/-- A row that is put is the one of its key, and the other keys keep theirs. -/
theorem lookup_put (l : List α) (a : α) (k : κ) :
    lookup key (put key l a) k = if key a = k then some a else lookup key l k := by
  have hmap : lookup key (l.map fun b => if key b == key a then a else b) k =
      if key a = k then (lookup key l k).map fun _ => a else lookup key l k := by
    induction l with
    | nil => simp [lookup]
    | cons b l ih =>
      rw [List.map_cons, lookup_cons, lookup_cons, ih]
      by_cases hb : key b = key a
      · by_cases hk : key a = k <;> simp [hb, hk]
      · have hfalse : ¬ (key b == key a) = true := by simpa using hb
        rw [if_neg hfalse]
        by_cases hk : key a = k
        · have hbk : ¬ key b = k := fun h => hb (h.trans hk.symm)
          rw [if_pos hk, if_pos hk, if_neg hbk, if_neg hbk]
        · rw [if_neg hk, if_neg hk]
  unfold put
  by_cases hany : l.any fun b => key b == key a
  · rw [if_pos hany, hmap]
    by_cases hk : key a = k
    · have hsome : lookup key l k ≠ none := by
        intro hnone
        obtain ⟨b, hb, hkey⟩ := List.any_eq_true.mp hany
        refine lookup_eq_none.mp hnone ?_
        rw [← hk, ← beq_iff_eq.mp hkey]
        exact List.mem_map_of_mem hb
      obtain ⟨b, hb⟩ := Option.ne_none_iff_exists'.mp hsome
      simp [hk, hb]
    · simp [hk]
  · have hnone : lookup key l (key a) = none := by
      refine List.find?_eq_none.mpr fun b hb heq => hany ?_
      exact List.any_eq_true.mpr ⟨b, hb, heq⟩
    rw [if_neg hany, lookup, List.find?_append]
    by_cases hk : key a = k
    · subst hk
      rw [lookup] at hnone
      simp [hnone]
    · have hlast : [a].find? (fun b => key b == k) = none := by simpa using hk
      rw [hlast, Option.or_none, if_neg hk]
      rfl

/-- Rows put one after the other, with keys of their own. -/
theorem lookup_foldl_put {rows : List α} (hnodup : (rows.map key).Nodup) (l : List α) (k : κ) :
    lookup key (rows.foldl (put key) l) k = (lookup key rows k).or (lookup key l k) := by
  induction rows generalizing l with
  | nil => rfl
  | cons a rows ih =>
    rw [List.map_cons, List.nodup_cons] at hnodup
    rw [List.foldl_cons, ih hnodup.2, lookup_put, lookup_cons]
    by_cases hk : key a = k
    · have hnone : lookup key rows k = none := lookup_eq_none.mpr (hk ▸ hnodup.1)
      simp [hk, hnone]
    · simp [hk]

/-- A row of the table is the one that was put or an old one with another key. -/
theorem mem_put {l : List α} {a b : α} (h : b ∈ put key l a) : b = a ∨ b ∈ l ∧ key b ≠ key a := by
  unfold put at h
  split_ifs at h with hany
  · obtain ⟨c, hc, rfl⟩ := List.mem_map.mp h
    split_ifs with hkey
    · exact .inl rfl
    · exact .inr ⟨hc, by simpa using hkey⟩
  · rcases List.mem_append.mp h with hold | hnew
    · refine .inr ⟨hold, fun hkey => hany (List.any_eq_true.mpr ⟨b, hold, by simpa using hkey⟩)⟩
    · exact .inl (List.mem_singleton.mp hnew)

/-- The keys are the old ones and the one of the row that was put. -/
theorem mem_keys_put {l : List α} {a : α} {k : κ} (h : k = key a ∨ k ∈ l.map key) :
    k ∈ (put key l a).map key := by
  have hlookup : lookup key (put key l a) k ≠ none := by
    rw [lookup_put]
    rcases h with rfl | hold
    · simp
    · split_ifs
      · simp
      · exact fun hnone => lookup_eq_none.mp hnone hold
  by_contra hnot
  exact hlookup (lookup_eq_none.mpr hnot)

/-- Putting a row leaves keys unique. -/
theorem nodup_put {l : List α} (h : (l.map key).Nodup) (a : α) : ((put key l a).map key).Nodup := by
  unfold put
  split_ifs with hany
  · refine nodup_keys_map h fun b _ => ?_
    split_ifs with hb
    · exact (beq_iff_eq.mp hb).symm
    · rfl
  · rw [List.map_append, List.nodup_append]
    refine ⟨h, by simp, fun k hk other hother hsame => hany ?_⟩
    obtain ⟨b, hb, rfl⟩ := List.mem_map.mp hk
    refine List.any_eq_true.mpr ⟨b, hb, ?_⟩
    simpa using hsame.trans (List.mem_singleton.mp hother)

theorem nodup_foldl_put (rows : List α) {l : List α} (h : (l.map key).Nodup) :
    ((rows.foldl (put key) l).map key).Nodup := by
  induction rows generalizing l with
  | nil => exact h
  | cons a rows ih => exact ih (nodup_put h a)

end

/-! ## Logs -/

/-- A change at `k` moves a count by what it does to the entry there. -/
theorem countP_modify (p : α → Bool) (f : α → α) {l : List α} {k : ℕ} {a : α}
    (ha : l[k]? = some a) :
    (l.modify k f).countP p + (if p a then 1 else 0) =
      l.countP p + (if p (f a) then 1 else 0) := by
  induction l generalizing k with
  | nil => simp at ha
  | cons b l ih =>
    cases k with
    | zero =>
      obtain rfl : b = a := by simpa using ha
      rw [List.modify_zero_cons, List.countP_cons, List.countP_cons]
      omega
    | succ k =>
      have hrest := ih (by simpa using ha)
      rw [List.modify_succ_cons, List.countP_cons, List.countP_cons]
      omega

/-- It leaves a count alone when it leaves the predicate alone. -/
theorem countP_modify_of_eq {p : α → Bool} {f : α → α} (h : ∀ a, p (f a) = p a) (l : List α)
    (k : ℕ) : (l.modify k f).countP p = l.countP p := by
  cases hk : l[k]? with
  | none => rw [List.modify_eq_self (List.getElem?_eq_none_iff.mp hk)]
  | some a =>
    have hcount := countP_modify p f hk
    rw [h a] at hcount
    omega

/-- It leaves what it does not change alone. -/
theorem map_modify_of_eq {β : Type*} {g : α → β} {f : α → α} (h : ∀ a, g (f a) = g a)
    (l : List α) (k : ℕ) : (l.modify k f).map g = l.map g := by
  induction l generalizing k with
  | nil => simp
  | cons a l ih =>
    cases k with
    | zero => simp [h]
    | succ k => simp [ih]

/-- An entry of a changed log is an old one, or the changed one. -/
theorem mem_modify {l : List α} {k : ℕ} {f : α → α} {b : α} (hb : b ∈ l.modify k f) :
    b ∈ l ∨ ∃ a, l[k]? = some a ∧ b = f a := by
  obtain ⟨i, hi⟩ := List.mem_iff_getElem?.mp hb
  rw [List.getElem?_modify] at hi
  by_cases hik : k = i
  · subst hik
    obtain ⟨a, ha, hab⟩ := Option.map_eq_some_iff.mp hi
    exact Or.inr ⟨a, ha, by simpa using hab.symm⟩
  · exact Or.inl (List.mem_of_getElem? (by simpa [hik] using hi))

end Purels.Lib
