import Purels.Lib.Machine

/-!
# Steps that are counted

How often labels of a kind can be taken before a machine leaves a part of its states.

* `run_counted`: a rank that goes down with every counted label bounds their number.
* `run_reaches`: with enough of them the run has come to a goal that it does not leave.
* `run_iff_along`: a property that the labels of a kind end, for good.
* `spent` and `run_spent`: what the steps of a run cost together.
-/

namespace Purels.Lib.Machine

variable {σ ℓ : Type*} (m : Machine σ ℓ)

/-- A run begins in the first state that it visits. -/
theorem head_mem_visited (s : σ) (as : List ℓ) : s ∈ m.visited s as := by
  cases as with
  | nil => exact List.mem_singleton_self s
  | cons a as => exact List.mem_cons_self

/-- While a run stays in `P`, each label that counts takes one from the rank, and no label adds
to it: it takes no more such labels than the rank says. -/
theorem run_counted {I P : σ → Prop} {counts : ℓ → Bool} {rank : σ → ℕ}
    (hkept : ∀ s a t, I s → m.step s a = some t → I t)
    (hrank : ∀ s a t, I s → P s → m.step s a = some t → P t →
      rank t + (if counts a then 1 else 0) ≤ rank s)
    {s t : σ} {as : List ℓ} (hs : I s) (hstays : ∀ v ∈ m.visited s as, P v)
    (hrun : m.run s as = some t) : as.countP counts + rank t ≤ rank s := by
  induction as generalizing s with
  | nil =>
    obtain rfl : s = t := by simpa using hrun
    simp
  | cons a as ih =>
    obtain ⟨v, hstep, hrest⟩ := m.run_cons_eq_some.1 hrun
    rw [m.visited_cons hstep] at hstays
    have hfirst : P s := hstays s List.mem_cons_self
    have hlater : ∀ x ∈ m.visited v as, P x := fun x hx => hstays x (List.mem_cons_of_mem s hx)
    have hbound := ih (hkept s a v hs hstep) hlater hrest
    have hdown := hrank s a v hs hfirst hstep (hlater v (m.head_mem_visited v as))
    rw [List.countP_cons]
    omega

/-- Until the goal is reached each label that counts takes `n` from the rank, and no label adds
to it. -/
theorem run_reaches (goal : σ → Prop) (counts : ℓ → Bool) (rank : σ → ℕ) {I : σ → Prop}
    {C : σ → ℓ → Prop} {n : ℕ} (hstays : ∀ s a t, goal s → m.step s a = some t → goal t)
    (hrank : ∀ s a t, I s → ¬ goal s → C s a → m.step s a = some t → ¬ goal t →
      I t ∧ rank t + (if counts a then n else 0) ≤ rank s)
    {s t : σ} {as : List ℓ} (hs : I s) (hC : m.Along C s as) (hrun : m.run s as = some t)
    (hnot : ¬ goal t) : I t ∧ n * as.countP counts + rank t ≤ rank s := by
  induction as generalizing s with
  | nil =>
    obtain rfl : s = t := by simpa using hrun
    exact ⟨hs, by simp⟩
  | cons a as ih =>
    obtain ⟨v, hstep, hrest⟩ := m.run_cons_eq_some.1 hrun
    have hbefore : ¬ goal s := fun hgoal => hnot (m.run_invariant hstays hgoal hrun)
    have hthen : ¬ goal v := fun hgoal => hnot (m.run_invariant hstays hgoal hrest)
    obtain ⟨hv, hdown⟩ := hrank s a v hs hbefore hC.1 hstep hthen
    obtain ⟨ht, hbound⟩ := ih hv (hC.2 v hstep) hrest
    refine ⟨ht, ?_⟩
    rw [List.countP_cons, Nat.mul_add]
    split_ifs at hdown ⊢ with hcounts
    · omega
    · omega

/-- When a step keeps `P` exactly if it meets `C`, and what ended does not begin again, `P` holds
after a run exactly if it held before and every step met `C`. -/
theorem run_iff_along {I P : σ → Prop} {C : σ → ℓ → Prop}
    (hstep : ∀ s a t, I s → m.step s a = some t → I t ∧ (P t ↔ P s ∧ C s a))
    {s t : σ} {as : List ℓ} (hs : I s) (hrun : m.run s as = some t) :
    I t ∧ (P t ↔ P s ∧ m.Along C s as) := by
  induction as generalizing s with
  | nil =>
    obtain rfl : s = t := by simpa using hrun
    exact ⟨hs, fun hP => ⟨hP, trivial⟩, And.left⟩
  | cons a as ih =>
    obtain ⟨v, hv, hrest⟩ := m.run_cons_eq_some.1 hrun
    obtain ⟨hI, hfirst⟩ := hstep s a v hs hv
    obtain ⟨hlast, hlater⟩ := ih hI hrest
    refine ⟨hlast, hlater.trans ⟨fun ⟨hP, hmet⟩ => ?_, fun ⟨hP, hC, hmet⟩ => ?_⟩⟩
    · obtain ⟨hbefore, hC⟩ := hfirst.mp hP
      refine ⟨hbefore, hC, fun w hw => ?_⟩
      obtain rfl : v = w := by simpa [hv] using hw
      exact hmet
    · exact ⟨hfirst.mpr ⟨hP, hC⟩, hmet v hv⟩

/-- What the steps of a run cost together. -/
def spent (cost : σ → ℓ → ℕ) : σ → List ℓ → ℕ
  | _, [] => 0
  | s, a :: as =>
    cost s a +
      match m.step s a with
      | none => 0
      | some t => spent cost t as

/-- A relation between the state and what was spent until then. -/
theorem run_spent {I : σ → ℕ → Prop} {C : σ → ℓ → Prop} {cost : σ → ℓ → ℕ}
    (hstep : ∀ s a t n, I s n → C s a → m.step s a = some t → I t (n + cost s a))
    {s t : σ} {as : List ℓ} {n : ℕ} (hs : I s n) (hC : m.Along C s as)
    (hrun : m.run s as = some t) : I t (n + m.spent cost s as) := by
  induction as generalizing s n with
  | nil =>
    obtain rfl : s = t := by simpa using hrun
    exact hs
  | cons a as ih =>
    obtain ⟨v, hv, hrest⟩ := m.run_cons_eq_some.1 hrun
    have hlast := ih (hstep s a v n hs hC.1 hv) (hC.2 v hv) hrest
    rwa [spent, hv, ← Nat.add_assoc]

end Purels.Lib.Machine
