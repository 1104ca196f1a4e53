import Mathlib.Data.List.Induction
import Mathlib.Tactic.Common

/-!
# Machines that step by labels

A machine moves from one state to the next under a label, and `none` means
that the label is not enabled in that state.  Everything a step may choose is
part of its label, so `run` replays a schedule deterministically, and a
statement about every interleaving is a statement about every list of labels.

There are three groups.

* Runs: `run`, and how it splits at a label.
* Invariants: `run_invariant` for machines whose every step keeps a property,
  and `run_invariant_along` for runs whose steps meet a condition.
* The states a run visits: `visited`, and `run_history` for properties of the
  whole history.
-/

namespace Purels.Lib

/-- A machine over states `σ` and labels `ℓ`. -/
structure Machine (σ ℓ : Type*) where
  /-- The state after one label, or `none` when the label is not enabled. -/
  step : σ → ℓ → Option σ

namespace Machine

variable {σ ℓ : Type*} (m : Machine σ ℓ)

/-! ## Runs -/

/-- Take the labels in order. -/
def run : σ → List ℓ → Option σ
  | s, [] => some s
  | s, a :: as => (m.step s a).bind fun t => run t as

@[simp] theorem run_nil (s : σ) : m.run s [] = some s := rfl

/-- A run of `a :: as` is a step of `a` and then a run of `as`. -/
theorem run_cons_eq_some {s u : σ} {a : ℓ} {as : List ℓ} :
    m.run s (a :: as) = some u ↔
      ∃ t, m.step s a = some t ∧ m.run t as = some u := by
  simp only [run, Option.bind_eq_some_iff]

/-- A run of `as ++ bs` is a run of `as` and then a run of `bs`. -/
theorem run_append_eq_some {s u : σ} {as bs : List ℓ} :
    m.run s (as ++ bs) = some u ↔
      ∃ t, m.run s as = some t ∧ m.run t bs = some u := by
  induction as generalizing s with
  | nil => simp
  | cons a as ih =>
    simp only [List.cons_append, run_cons_eq_some, ih]
    constructor
    · rintro ⟨t, hstep, v, hrun, hrest⟩
      exact ⟨v, ⟨t, hstep, hrun⟩, hrest⟩
    · rintro ⟨v, ⟨t, hstep, hrun⟩, hrest⟩
      exact ⟨t, hstep, v, hrun, hrest⟩

/-! ## Invariants -/

/-- A property that every step keeps holds at the end of every run. -/
theorem run_invariant {I : σ → Prop}
    (hstep : ∀ s a t, I s → m.step s a = some t → I t)
    {s t : σ} {as : List ℓ} (hs : I s) (hrun : m.run s as = some t) : I t := by
  induction as generalizing s with
  | nil =>
    obtain rfl : s = t := by simpa using hrun
    exact hs
  | cons a as ih =>
    obtain ⟨u, hu, hrest⟩ := m.run_cons_eq_some.1 hrun
    exact ih (hstep s a u hs hu) hrest

/-- Every step of the run of `as` from `s` meets `C`, which reads the state
before the step and its label. -/
def Along (C : σ → ℓ → Prop) : σ → List ℓ → Prop
  | _, [] => True
  | s, a :: as => C s a ∧ ∀ t, m.step s a = some t → Along C t as

/-- A condition on a run splits where the run does. -/
theorem Along.of_append {C : σ → ℓ → Prop} {s t : σ} {as bs : List ℓ}
    (h : m.Along C s (as ++ bs)) (hrun : m.run s as = some t) :
    m.Along C s as ∧ m.Along C t bs := by
  induction as generalizing s with
  | nil =>
    obtain rfl : s = t := by simpa using hrun
    exact ⟨trivial, h⟩
  | cons a as ih =>
    obtain ⟨u, hu, hrest⟩ := m.run_cons_eq_some.1 hrun
    obtain ⟨hC, htail⟩ := h
    obtain ⟨_, hbs⟩ := ih (htail u hu) hrest
    refine ⟨⟨hC, fun v hv => ?_⟩, hbs⟩
    obtain rfl : u = v := by simpa [hu] using hv
    exact (ih (htail u hu) hrest).1

/-- Two conditions on a run are one. -/
theorem Along.and {C D : σ → ℓ → Prop} {s : σ} {as : List ℓ} (hC : m.Along C s as)
    (hD : m.Along D s as) : m.Along (fun s a => C s a ∧ D s a) s as := by
  induction as generalizing s with
  | nil => trivial
  | cons a as ih => exact ⟨⟨hC.1, hD.1⟩, fun t ht => ih (hC.2 t ht) (hD.2 t ht)⟩

/-- A condition on labels alone. -/
theorem along_of_mem {C : ℓ → Prop} {as : List ℓ} (h : ∀ a ∈ as, C a) (s : σ) :
    m.Along (fun _ => C) s as := by
  induction as generalizing s with
  | nil => trivial
  | cons a as ih =>
    exact ⟨h a List.mem_cons_self, fun t _ => ih (fun b hb => h b (List.mem_cons_of_mem a hb)) t⟩

theorem Along.imp {C D : σ → ℓ → Prop} (hCD : ∀ s a, C s a → D s a) {s : σ} {as : List ℓ}
    (h : m.Along C s as) : m.Along D s as := by
  induction as generalizing s with
  | nil => trivial
  | cons a as ih => exact ⟨hCD s a h.1, fun t ht => ih (h.2 t ht)⟩

/-- A condition evaluated along a given run. -/
def check (C : σ → ℓ → Bool) : σ → List ℓ → Bool
  | _, [] => true
  | s, a :: as => C s a && ((m.step s a).map fun t => check C t as).getD true

theorem along_of_check {C : σ → ℓ → Bool} {D : σ → ℓ → Prop} (hCD : ∀ s a, C s a → D s a)
    {s : σ} {as : List ℓ} (h : m.check C s as) : m.Along D s as := by
  induction as generalizing s with
  | nil => trivial
  | cons a as ih =>
    obtain ⟨hfirst, hrest⟩ := Bool.and_eq_true_iff.mp h
    refine ⟨hCD s a hfirst, fun t ht => ih ?_⟩
    simpa [ht] using hrest

/-- A property that every step meeting `C` keeps holds at the end of every run
whose steps all meet `C`. -/
theorem run_invariant_along {I : σ → Prop} {C : σ → ℓ → Prop}
    (hstep : ∀ s a t, I s → C s a → m.step s a = some t → I t)
    {s t : σ} {as : List ℓ} (hs : I s) (hC : m.Along C s as)
    (hrun : m.run s as = some t) : I t := by
  induction as generalizing s with
  | nil =>
    obtain rfl : s = t := by simpa using hrun
    exact hs
  | cons a as ih =>
    obtain ⟨u, hu, hrest⟩ := m.run_cons_eq_some.1 hrun
    exact ih (hstep s a u hs hC.1 hu) (hC.2 u hu) hrest

/-! ## The states a run visits -/

/-- The states of the run of `as` from `s`, the first and the last included. -/
def visited : σ → List ℓ → List σ
  | s, [] => [s]
  | s, a :: as => s :: ((m.step s a).map fun t => visited t as).getD []

theorem visited_cons {s t : σ} {a : ℓ} {as : List ℓ} (hstep : m.step s a = some t) :
    m.visited s (a :: as) = s :: m.visited t as := by
  simp [visited, hstep]

/-- The last state of a run is one it visits. -/
theorem mem_visited_of_run {s t : σ} {as : List ℓ}
    (hrun : m.run s as = some t) : t ∈ m.visited s as := by
  induction as generalizing s with
  | nil =>
    obtain rfl : s = t := by simpa using hrun
    simp [visited]
  | cons a as ih =>
    obtain ⟨u, hu, hrest⟩ := m.run_cons_eq_some.1 hrun
    simp only [visited, hu, Option.map_some, Option.getD_some, List.mem_cons]
    exact Or.inr (ih hrest)

/-- One more step adds the state it leads to. -/
theorem visited_concat {s t u : σ} {as : List ℓ} {a : ℓ}
    (hrun : m.run s as = some t) (hstep : m.step t a = some u) :
    m.visited s (as ++ [a]) = m.visited s as ++ [u] := by
  induction as generalizing s with
  | nil =>
    obtain rfl : s = t := by simpa using hrun
    simp [visited, hstep]
  | cons b as ih =>
    obtain ⟨v, hv, hrest⟩ := m.run_cons_eq_some.1 hrun
    simp [visited, hv, ih hrest]

/-- The rule of histories: a property of the labels taken, the states visited and
the present state holds of every run whose steps meet `C`, when each step of such
a run keeps it. -/
theorem run_history {I : List ℓ → List σ → σ → Prop} {C : σ → ℓ → Prop}
    (hstep : ∀ as vs s a t, s ∈ vs → I as vs s → C s a → m.step s a = some t →
      I (as ++ [a]) (vs ++ [t]) t)
    {s t : σ} {as : List ℓ} (hs : I [] [s] s) (hC : m.Along C s as) (hrun : m.run s as = some t) :
    I as (m.visited s as) t := by
  induction as using List.reverseRecOn generalizing t with
  | nil =>
    obtain rfl : s = t := by simpa using hrun
    exact hs
  | append_singleton as a ih =>
    obtain ⟨v, hv, hlast⟩ := m.run_append_eq_some.1 hrun
    obtain ⟨w, hw, hnil⟩ := m.run_cons_eq_some.1 hlast
    obtain rfl : w = t := by simpa using hnil
    obtain ⟨hbefore, hlastC⟩ := Along.of_append m hC hv
    rw [m.visited_concat hv hw]
    exact hstep as _ v a w (m.mem_visited_of_run hv) (ih hbefore hv) hlastC.1 hw

end Machine

end Purels.Lib
