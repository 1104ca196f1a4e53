import Mathlib.Data.List.Perm.Subperm
import Purels.Lib.Machine

/-!
# What a run hands over

Observations along a run, and steps that hand over in order what others put down.

* `Machine.observed`: what the steps of a run show.
* `log_of_run`: a log that each step extends by what it shows.
* `inPlace`: what a list of things in places has in one of them.
* `handed_over`: what is put down in a place is taken from it in order, but for what lies there.
* `handed_over_subperm`: what was taken was put down.
* `handed_over_perm`: with nothing left lying, that is all.
-/

namespace Purels.Lib.Machine

/-! ## Observations -/

variable {σ ℓ ε : Type*} (m : Machine σ ℓ)

/-- What the steps of a run show, in order. -/
def observed (shows : σ → ℓ → Option ε) : σ → List ℓ → List ε
  | _, [] => []
  | s, a :: as =>
    (shows s a).toList ++
      match m.step s a with
      | none => []
      | some t => observed shows t as

variable {m}

theorem observed_cons {shows : σ → ℓ → Option ε} {s t : σ} {a : ℓ} (h : m.step s a = some t)
    (as : List ℓ) :
    m.observed shows s (a :: as) = (shows s a).toList ++ m.observed shows t as := by
  rw [observed, h]

/-- To look at the steps through `f` is to look at what they show through it. -/
theorem observed_bind {β : Type*} (shows : σ → ℓ → Option ε) (f : ε → Option β) (s : σ)
    (as : List ℓ) :
    m.observed (fun s a => (shows s a).bind f) s as = (m.observed shows s as).filterMap f := by
  induction as generalizing s with
  | nil => rfl
  | cons a as ih =>
    rw [observed, observed, List.filterMap_append]
    congr 1
    · cases shows s a with
      | none => rfl
      | some e => cases hf : f e <;> simp [hf]
    · cases m.step s a with
      | none => rfl
      | some t => exact ih t

/-- A log that each step extends by what it shows. -/
theorem log_of_run {I : σ → Prop} (log : σ → List ε) (shows : σ → ℓ → Option ε)
    (hstep : ∀ s a t, I s → m.step s a = some t → I t ∧ log t = log s ++ (shows s a).toList)
    {s t : σ} {as : List ℓ} (hs : I s) (hrun : m.run s as = some t) :
    log t = log s ++ m.observed shows s as := by
  induction as generalizing s with
  | nil =>
    obtain rfl : s = t := by simpa using hrun
    simp [observed]
  | cons a as ih =>
    obtain ⟨v, hv, hrest⟩ := m.run_cons_eq_some.1 hrun
    obtain ⟨hI, hlog⟩ := hstep s a v hs hv
    rw [observed_cons hv, ih hI hrest, hlog, List.append_assoc]

/-! ## Places -/

variable {ι : Type*} [DecidableEq ι]

/-- What a list of things in places has in one of them. -/
def inPlace (i : ι) (xs : List (ι × ε)) : List ε := (xs.filter fun x => x.1 = i).map Prod.snd

@[simp] theorem inPlace_nil (i : ι) : inPlace i ([] : List (ι × ε)) = [] := rfl

@[simp] theorem inPlace_append (i : ι) (xs ys : List (ι × ε)) :
    inPlace i (xs ++ ys) = inPlace i xs ++ inPlace i ys := by
  simp [inPlace]

theorem count_inPlace [DecidableEq ε] (i : ι) (e : ε) (xs : List (ι × ε)) :
    xs.count (i, e) = (inPlace i xs).count e := by
  induction xs with
  | nil => rfl
  | cons x xs ih =>
    obtain ⟨j, f⟩ := x
    by_cases hj : j = i
    · simp [inPlace, List.count_cons, hj] at ih ⊢
      omega
    · simpa [inPlace, hj] using ih

/-- Lists that agree in every place have the same things. -/
theorem perm_of_inPlace [DecidableEq ε] {xs ys : List (ι × ε)}
    (h : ∀ i, inPlace i xs = inPlace i ys) : xs.Perm ys := by
  refine List.perm_iff_count.mpr fun x => ?_
  rw [count_inPlace, count_inPlace, h x.1]

/-- A list that has the beginnings of another in every place has nothing else. -/
theorem subperm_of_inPlace [DecidableEq ε] {xs ys : List (ι × ε)}
    (h : ∀ i, inPlace i xs <+: inPlace i ys) : xs.Subperm ys := by
  refine List.subperm_ext_iff.mpr fun x _ => ?_
  rw [count_inPlace, count_inPlace]
  exact (h x.1).sublist.count_le x.2

section

variable {puts takes : σ → ℓ → Option (ι × ε)} {held : σ → ι → List ε}

/-- What lay in a place and what was put there is what was taken from it and what lies there. -/
theorem handed_over {I : σ → Prop}
    (hstep : ∀ s a t, I s → m.step s a = some t → I t ∧ ∀ i,
      held s i ++ inPlace i (puts s a).toList = inPlace i (takes s a).toList ++ held t i)
    {s t : σ} {as : List ℓ} (hs : I s) (hrun : m.run s as = some t) (i : ι) :
    held s i ++ inPlace i (m.observed puts s as) =
      inPlace i (m.observed takes s as) ++ held t i := by
  induction as generalizing s with
  | nil =>
    obtain rfl : s = t := by simpa using hrun
    simp [observed]
  | cons a as ih =>
    obtain ⟨v, hv, hrest⟩ := m.run_cons_eq_some.1 hrun
    obtain ⟨hI, hplaces⟩ := hstep s a v hs hv
    rw [observed_cons hv, observed_cons hv, inPlace_append, inPlace_append, ← List.append_assoc,
      hplaces i, List.append_assoc, ih hI hrest, List.append_assoc]

/-- With nothing left lying, what was taken is what was put down. -/
theorem handed_over_perm [DecidableEq ε] {I : σ → Prop}
    (hstep : ∀ s a t, I s → m.step s a = some t → I t ∧ ∀ i,
      held s i ++ inPlace i (puts s a).toList = inPlace i (takes s a).toList ++ held t i)
    {s t : σ} {as : List ℓ} (hs : I s) (hrun : m.run s as = some t)
    (hfirst : ∀ i, held s i = []) (hlast : ∀ i, held t i = []) :
    (m.observed takes s as).Perm (m.observed puts s as) := by
  refine perm_of_inPlace fun i => ?_
  have hboth := handed_over hstep hs hrun i
  rw [hfirst, hlast, List.nil_append, List.append_nil] at hboth
  exact hboth.symm

/-- What was taken was put down. -/
theorem handed_over_subperm [DecidableEq ε] {I : σ → Prop}
    (hstep : ∀ s a t, I s → m.step s a = some t → I t ∧ ∀ i,
      held s i ++ inPlace i (puts s a).toList = inPlace i (takes s a).toList ++ held t i)
    {s t : σ} {as : List ℓ} (hs : I s) (hrun : m.run s as = some t)
    (hfirst : ∀ i, held s i = []) : (m.observed takes s as).Subperm (m.observed puts s as) := by
  refine subperm_of_inPlace fun i => ⟨held t i, ?_⟩
  have hboth := handed_over hstep hs hrun i
  rw [hfirst, List.nil_append] at hboth
  exact hboth.symm

end

end Purels.Lib.Machine
