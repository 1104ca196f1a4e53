import Mathlib.Logic.Function.Basic
import Purels.Lib.Machine

/-!
# Processes over a shared state

Any number of processes, each with a local state, take atomic steps on one
shared state.  A schedule is a list of labels, each the process that moves and
the label of its step, so that every interleaving is a run of one machine.

* `Pool` and `Process.machine`: the states, and the machine of a process.
* `Process.step_cases`: what one step of the machine changes.
* `Process.locals_of_run`: a run leaves alone the processes that take no step.
* `Process.run_locals`: the rule of local assertions.  What every step keeps for
  the process that moves and for the one that watches holds of all in every run.
* `Process.run_locals_apart`: the same for processes that are to be kept apart, such as
  the owners of different things.
-/

namespace Purels.Lib

/-- A shared state and the local states of the processes. -/
structure Pool (σ κ : Type*) where
  shared : σ
  locals : ℕ → κ

/-- The program that all processes follow: one atomic step of a local state on the
shared one, or `none` when the label is not enabled. -/
structure Process (σ κ ℓ : Type*) where
  step : σ → κ → ℓ → Option (σ × κ)

namespace Process

variable {σ κ ℓ : Type*} (p : Process σ κ ℓ)

/-- Process `i` takes the step and the others stay where they are. -/
def machine : Machine (Pool σ κ) (ℕ × ℓ) where
  step s a := (p.step s.shared (s.locals a.1) a.2).map fun r =>
    ⟨r.1, Function.update s.locals a.1 r.2⟩

variable {p}

/-- A step of the machine is a step of one process. -/
theorem step_cases {s t : Pool σ κ} {i : ℕ} {a : ℓ} (h : p.machine.step s (i, a) = some t) :
    ∃ l, p.step s.shared (s.locals i) a = some (t.shared, l) ∧ t.locals i = l ∧
      ∀ j ≠ i, t.locals j = s.locals j := by
  obtain ⟨⟨shared, l⟩, hstep, rfl⟩ := Option.map_eq_some_iff.mp h
  exact ⟨l, hstep, Function.update_self .., fun j hj => Function.update_of_ne hj ..⟩

/-- The processes that take no step of a run stay where they are. -/
theorem locals_of_run (still : ℕ → Prop) {s t : Pool σ κ} {as : List (ℕ × ℓ)}
    (has : ∀ a ∈ as, ¬ still a.1) (hrun : p.machine.run s as = some t) :
    ∀ j, still j → t.locals j = s.locals j := by
  induction as generalizing s with
  | nil =>
    obtain rfl : s = t := by simpa using hrun
    exact fun _ _ => rfl
  | cons a as ih =>
    obtain ⟨v, hstep, hrest⟩ := p.machine.run_cons_eq_some.1 hrun
    obtain ⟨-, -, -, hothers⟩ := step_cases hstep
    intro j hj
    rw [ih (fun b hb => has b (List.mem_cons_of_mem a hb)) hrest j hj]
    exact hothers j fun heq => has a List.mem_cons_self (heq ▸ hj)

/-- They do so before every step of it. -/
theorem along_locals (still : ℕ → Prop) {s : Pool σ κ} {as : List (ℕ × ℓ)}
    (has : ∀ a ∈ as, ¬ still a.1) :
    p.machine.Along (fun t _ => ∀ j, still j → t.locals j = s.locals j) s as := by
  induction as generalizing s with
  | nil => trivial
  | cons a as ih =>
    refine ⟨fun _ _ => rfl, fun t hstep => ?_⟩
    obtain ⟨-, -, -, hothers⟩ := step_cases hstep
    refine (ih fun b hb => has b (List.mem_cons_of_mem a hb)).imp _ fun v _ hv j hj => ?_
    exact (hv j hj).trans (hothers j fun heq => has a List.mem_cons_self (heq ▸ hj))

/-- A global invariant, a local assertion and a symmetric relation between any two processes
hold along every run whose steps meet `C`, when each step keeps them: for the process that
moves, and between it and every other local state. -/
theorem run_locals_apart {I : σ → Prop} {P : σ → κ → Prop} {R : κ → κ → Prop}
    {C : Pool σ κ → ℕ × ℓ → Prop} (hsymm : ∀ l m, R l m → R m l)
    (hown : ∀ (s : Pool σ κ) i a x l, I s.shared → P s.shared (s.locals i) → C s (i, a) →
      p.step s.shared (s.locals i) a = some (x, l) → I x ∧ P x l)
    (hother : ∀ (s : Pool σ κ) i a x l m, I s.shared → P s.shared (s.locals i) → P s.shared m →
      R (s.locals i) m → p.step s.shared (s.locals i) a = some (x, l) → P x m ∧ R l m)
    {s t : Pool σ κ} {as : List (ℕ × ℓ)} (hI : I s.shared) (hP : ∀ i, P s.shared (s.locals i))
    (hR : ∀ i j, i ≠ j → R (s.locals i) (s.locals j)) (hC : p.machine.Along C s as)
    (hrun : p.machine.run s as = some t) :
    I t.shared ∧ (∀ i, P t.shared (t.locals i)) ∧
      ∀ i j, i ≠ j → R (t.locals i) (t.locals j) := by
  refine p.machine.run_invariant_along
    (I := fun s => I s.shared ∧ (∀ i, P s.shared (s.locals i)) ∧
      ∀ i j, i ≠ j → R (s.locals i) (s.locals j)) ?_ ⟨hI, hP, hR⟩ hC hrun
  rintro s ⟨i, a⟩ t ⟨hI, hP, hR⟩ hC hstep
  obtain ⟨l, hl, hi, hj⟩ := step_cases hstep
  obtain ⟨hI', hPi⟩ := hown s i a t.shared l hI (hP i) hC hl
  have hothers : ∀ j, j ≠ i → P t.shared (t.locals j) ∧ R (t.locals i) (t.locals j) := by
    intro j hji
    rw [hj j hji, hi]
    exact hother s i a t.shared l (s.locals j) hI (hP i) (hP j) (hR i j hji.symm) hl
  refine ⟨hI', fun j => ?_, fun j k hjk => ?_⟩
  · by_cases hji : j = i
    · exact hji ▸ hi ▸ hPi
    · exact (hothers j hji).1
  · by_cases hji : j = i
    · subst hji
      exact (hothers k hjk.symm).2
    · by_cases hki : k = i
      · subst hki
        exact hsymm _ _ (hothers j hji).2
      · rw [hj j hji, hj k hki]
        exact hR j k hjk

/-- The rule of local assertions: `run_locals_apart` for processes that may meet. -/
theorem run_locals {I : σ → Prop} {P : σ → κ → Prop} {C : Pool σ κ → ℕ × ℓ → Prop}
    (hown : ∀ (s : Pool σ κ) i a x l, I s.shared → P s.shared (s.locals i) → C s (i, a) →
      p.step s.shared (s.locals i) a = some (x, l) → I x ∧ P x l)
    (hother : ∀ (s : Pool σ κ) i a x l m, I s.shared → P s.shared (s.locals i) → P s.shared m →
      p.step s.shared (s.locals i) a = some (x, l) → P x m)
    {s t : Pool σ κ} {as : List (ℕ × ℓ)} (hs : I s.shared ∧ ∀ i, P s.shared (s.locals i))
    (hC : p.machine.Along C s as) (hrun : p.machine.run s as = some t) :
    I t.shared ∧ ∀ i, P t.shared (t.locals i) := by
  obtain ⟨hI, hP, -⟩ := run_locals_apart (R := fun _ _ => True) (fun _ _ _ => trivial) hown
    (fun s i a x l m hI hP hm _ hstep => ⟨hother s i a x l m hI hP hm hstep, trivial⟩)
    hs.1 hs.2 (fun _ _ _ => trivial) hC hrun
  exact ⟨hI, hP⟩

end Process

end Purels.Lib
