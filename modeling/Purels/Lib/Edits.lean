import Purels.Lib.Processes

/-!
# Edits that read a row and write it back

Two processes edit one row.  Each reads it, works out the new row from its request and
from what it has read, and writes that in one statement, which sees the row as it is by
then.

* `Phase` and `EditStep`: how far an edit has come, and what a step does to the row.
* `EditProcess`: a process whose steps are such steps.
* `EditLaws`: what one write does, for a property `Stands c d` of the row which says that
  what `c` alone asks for is there.
* `EditProcess.stand_iff`: both stand at the end of a run exactly when no edit writes while
  the other one holds what it has read, unless the write changes nothing of what it alone
  asks for.
-/

namespace Purels.Lib

variable {σ κ ℓ ρ ν γ : Type*}

/-! ## Edits -/

/-- How far an edit has come: it has read nothing yet, it goes on reading, or its next
step writes. -/
inductive Phase (ν : Type*) where
  | fresh
  | loaded (seen : ν)
  | ready (seen : ν)
  | written
  | failed

/-- The edit holds what it has read. -/
def Phase.Holds (phase : Phase ν) (seen : ν) : Prop := phase = .loaded seen ∨ phase = .ready seen

/-- A step of an edit that asks for `c`. -/
inductive EditStep (read : γ → ρ → ν) (Write : γ → ν → ρ → ρ → Prop) (c : γ) :
    Phase ν → Option ρ → Phase ν → Option ρ → Prop where
  | load (r : ρ) (phase : Phase ν) (h : phase.Holds (read c r)) :
      EditStep read Write c .fresh (some r) phase (some r)
  | check (seen : ν) (row : Option ρ) : EditStep read Write c (.loaded seen) row (.ready seen) row
  | write (seen : ν) (r r' : ρ) (h : Write c seen r r') :
      EditStep read Write c (.ready seen) (some r) .written (some r')
  | after (row : Option ρ) : EditStep read Write c .written row .written row
  | fail (phase : Phase ν) (row : Option ρ) : EditStep read Write c phase row .failed row

theorem Phase.Holds.ne {phase : Phase ν} {v : ν} (h : phase.Holds v) :
    phase ≠ .fresh ∧ phase ≠ .written ∧ phase ≠ .failed := by
  rcases h with rfl | rfl
  · exact ⟨nofun, nofun, nofun⟩
  · exact ⟨nofun, nofun, nofun⟩

/-- What a step is told by what it does. -/
theorem EditStep.cases {read : γ → ρ → ν} {Write : γ → ν → ρ → ρ → Prop} {c : γ}
    {phase phase' : Phase ν} {row row' : Option ρ}
    (h : EditStep read Write c phase row phase' row') :
    (∃ r, phase = .fresh ∧ phase'.Holds (read c r) ∧ row = some r ∧ row' = row) ∨
    (∃ v, phase = .loaded v ∧ phase' = .ready v ∧ row' = row) ∨
    (∃ v r r', phase = .ready v ∧ phase' = .written ∧ row = some r ∧ row' = some r' ∧
      Write c v r r') ∨
    (phase = .written ∧ phase' = .written ∧ row' = row) ∨ (phase' = .failed ∧ row' = row) := by
  cases h with
  | load r phase h => exact .inl ⟨r, rfl, h, rfl, rfl⟩
  | check v row => exact .inr (.inl ⟨v, rfl, rfl, rfl⟩)
  | write v r r' h => exact .inr (.inr (.inl ⟨v, r, r', rfl, rfl, rfl, rfl, h⟩))
  | after row => exact .inr (.inr (.inr (.inl ⟨rfl, rfl, rfl⟩)))
  | fail phase row => exact .inr (.inr (.inr (.inr ⟨rfl, rfl⟩)))

theorem EditStep.of_failed {read : γ → ρ → ν} {Write : γ → ν → ρ → ρ → Prop} {c : γ}
    {phase phase' : Phase ν} {row row' : Option ρ}
    (h : EditStep read Write c phase row phase' row') (hfailed : phase = .failed) :
    phase' = .failed := by
  subst hfailed
  cases h
  rfl

/-- A process whose steps are steps of an edit. -/
structure EditProcess (p : Process σ κ ℓ) (read : γ → ρ → ν) (Write : γ → ν → ρ → ρ → Prop) where
  row : σ → Option ρ
  asks : κ → γ
  phase : κ → Phase ν
  /-- What the local states have in common from the start on. -/
  Sound : κ → Prop
  step : ∀ s k a s' k', Sound k → p.step s k a = some (s', k') →
    Sound k' ∧ asks k' = asks k ∧
      EditStep read Write (asks k) (phase k) (row s) (phase k') (row s')

/-- What one write does.  `Alike` is what the row keeps of what was once read. -/
structure EditLaws (read : γ → ρ → ν) (Write : γ → ν → ρ → ρ → Prop) (Alike : γ → ν → ρ → Prop)
    (Stands Already : γ → γ → ρ → Prop) : Prop where
  read_alike : ∀ c r, Alike c (read c r) r
  write_alike : ∀ {c d v w r r'}, Write c w r r' → Alike d v r → Alike d v r'
  /-- What a write asks for stands after it. -/
  own : ∀ {c d v r r'}, Alike c v r → Write c v r r' → Stands c d r'
  /-- It still does after a write that has read it. -/
  serial : ∀ {c d r r'}, Stands c d r → Write d (read d r) r r' → Stands c d r'
  /-- After a write that has read the row before it, it does if it did then. -/
  overlap : ∀ {c d r r₁ r₂}, Write c (read c r) r r₁ → Write d (read d r) r₁ r₂ →
    (Stands c d r₂ ↔ Already c d r)

namespace EditProcess

variable {p : Process σ κ ℓ} {read : γ → ρ → ν} {Write : γ → ν → ρ → ρ → Prop}
  (E : EditProcess p read Write) {Alike : γ → ν → ρ → Prop} {Stands Already : γ → γ → ρ → Prop}

/-- The process does not write while the other one holds what it has read, unless the row
has already what the process alone asks for. -/
def Unhurried (Already : γ → γ → ρ → Prop) (other : ℕ → ℕ) (s : Pool σ κ) (i : ℕ) : Prop :=
  ∀ v w r, E.phase (s.locals i) = .ready v → (E.phase (s.locals (other i))).Holds w →
    E.row s.shared = some r → Already (E.asks (s.locals i)) (E.asks (s.locals (other i))) r

/-- The state after the write of `i`, with the verdict `Q` on what `i` alone asks for. -/
inductive Decided (Alike : γ → ν → ρ → Prop) (Stands : γ → γ → ρ → Prop) (s : Pool σ κ) (i j : ℕ)
    (Q : Prop) : Prop where
  | fresh (r : ρ) (hi : E.phase (s.locals i) = .written) (hj : E.phase (s.locals j) = .fresh)
      (hrow : E.row s.shared = some r)
      (hstands : Stands (E.asks (s.locals i)) (E.asks (s.locals j)) r) (hQ : Q)
  | holds (r : ρ) (v : ν) (hi : E.phase (s.locals i) = .written)
      (hj : (E.phase (s.locals j)).Holds v) (hrow : E.row s.shared = some r) (halike : Alike (E.asks (s.locals j)) v r)
      (hverdict : ∀ r', Write (E.asks (s.locals j)) v r r' →
        (Stands (E.asks (s.locals i)) (E.asks (s.locals j)) r' ↔ Q))
  | written (r : ρ) (hi : E.phase (s.locals i) = .written)
      (hj : E.phase (s.locals j) = .written) (hrow : E.row s.shared = some r)
      (hstands : Stands (E.asks (s.locals j)) (E.asks (s.locals i)) r)
      (hverdict : Stands (E.asks (s.locals i)) (E.asks (s.locals j)) r ↔ Q)
  | failed (h : E.phase (s.locals i) = .failed ∨ E.phase (s.locals j) = .failed)

/-- Neither has written, and what they hold is the row as it is. -/
def Early (s : Pool σ κ) (i : ℕ) : Prop :=
  E.phase (s.locals i) = .fresh ∨
    ∃ r, (E.phase (s.locals i)).Holds (read (E.asks (s.locals i)) r) ∧ E.row s.shared = some r

variable {E}

/-- A step of one edit, as the other one sees it. -/
theorem step_cases {s t : Pool σ κ} {i : ℕ} {a : ℓ} (hsound : E.Sound (s.locals i))
    (hstep : p.machine.step s (i, a) = some t) :
    E.Sound (t.locals i) ∧ E.asks (t.locals i) = E.asks (s.locals i) ∧
      EditStep read Write (E.asks (s.locals i)) (E.phase (s.locals i)) (E.row s.shared)
        (E.phase (t.locals i)) (E.row t.shared) ∧
      ∀ j ≠ i, t.locals j = s.locals j := by
  obtain ⟨l, hl, rfl, hothers⟩ := Process.step_cases hstep
  obtain ⟨hsound', hasks, hedit⟩ := E.step _ _ _ _ _ hsound hl
  exact ⟨hsound', hasks, hedit, hothers⟩

/-- The first edit has written. -/
theorem Decided.first {s : Pool σ κ} {i j : ℕ} {Q : Prop} (h : E.Decided Alike Stands s i j Q)
    (hfailed : ¬ (E.phase (s.locals i) = .failed ∨ E.phase (s.locals j) = .failed)) :
    E.phase (s.locals i) = .written := by
  cases h with
  | fresh r hi => exact hi
  | holds r v hi => exact hi
  | written r hi => exact hi
  | failed h => exact absurd h hfailed

section

variable {s t : Pool σ κ} {i j : ℕ} {a : ℓ} {Q : Prop}

/-- So does it when the first one does, which has nothing left to write. -/
theorem Decided.step_first (hij : i ≠ j) (hsound : E.Sound (s.locals i))
    (h : E.Decided Alike Stands s i j Q) (hstep : p.machine.step s (i, a) = some t) :
    E.Decided Alike Stands t i j Q := by
  obtain ⟨-, hasks, hedit, hothers⟩ := step_cases hsound hstep
  have hsecond := hothers j hij.symm
  by_cases hfailed : E.phase (s.locals i) = .failed ∨ E.phase (s.locals j) = .failed
  · refine .failed ?_
    rw [hsecond]
    exact hfailed.imp_left hedit.of_failed
  rcases hedit.cases with ⟨r₀, hphase, -⟩ | ⟨v₀, hphase, -⟩ | ⟨v₀, r₀, r', hphase, -⟩ |
    ⟨-, hafter, hrow⟩ | ⟨hafter, -⟩
  · exact absurd ((h.first hfailed).symm.trans hphase) nofun
  · exact absurd ((h.first hfailed).symm.trans hphase) nofun
  · exact absurd ((h.first hfailed).symm.trans hphase) nofun
  · cases h with
    | fresh r hi hj hr hstands hQ =>
      refine .fresh r hafter (hsecond ▸ hj) (hrow.trans hr) ?_ hQ
      rw [hsecond, hasks]
      exact hstands
    | holds r v hi hj hr halike hverdict =>
      refine .holds r v hafter (hsecond ▸ hj) (hrow.trans hr) (hsecond ▸ halike) ?_
      rw [hsecond, hasks]
      exact hverdict
    | written r hi hj hr hstands hverdict =>
      refine .written r hafter (hsecond ▸ hj) (hrow.trans hr) ?_ ?_
      · rw [hsecond, hasks]
        exact hstands
      · rw [hsecond, hasks]
        exact hverdict
    | failed h => exact absurd h hfailed
  · exact .failed (.inl hafter)

/-- The requests stay what they are. -/
theorem asks_of_run (hij : i ≠ j) (hsound : E.Sound (s.locals i) ∧ E.Sound (s.locals j))
    {as : List (ℕ × ℓ)} (has : ∀ a ∈ as, a.1 = i ∨ a.1 = j) (hrun : p.machine.run s as = some t) :
    E.asks (t.locals i) = E.asks (s.locals i) ∧ E.asks (t.locals j) = E.asks (s.locals j) := by
  induction as generalizing s with
  | nil =>
    obtain rfl : s = t := by simpa using hrun
    exact ⟨rfl, rfl⟩
  | cons a as ih =>
    obtain ⟨v, hstep, hrest⟩ := p.machine.run_cons_eq_some.1 hrun
    obtain ⟨k, a⟩ := a
    have hrest' := fun hsound' =>
      ih hsound' (fun b hb => has b (List.mem_cons_of_mem _ hb)) hrest
    rcases has (k, a) List.mem_cons_self with rfl | rfl
    · obtain ⟨hown, hasks, -, hothers⟩ := step_cases hsound.1 hstep
      have hsecond := hothers j hij.symm
      rw [hsecond, hasks] at hrest'
      exact hrest' ⟨hown, hsound.2⟩
    · obtain ⟨hown, hasks, -, hothers⟩ := step_cases hsound.2 hstep
      have hfirst := hothers i hij
      rw [hfirst, hasks] at hrest'
      exact hrest' ⟨hsound.1, hown⟩

/-- The verdict on the row once both have written. -/
theorem Decided.verdict (h : E.Decided Alike Stands s i j Q)
    (hi : E.phase (s.locals i) = .written) (hj : E.phase (s.locals j) = .written) :
    ∃ r, E.row s.shared = some r ∧ Stands (E.asks (s.locals j)) (E.asks (s.locals i)) r ∧
      (Stands (E.asks (s.locals i)) (E.asks (s.locals j)) r ↔ Q) := by
  cases h with
  | fresh r hi' hj' => exact absurd (hj'.symm.trans hj) nofun
  | holds r v hi' hj' => exact absurd hj hj'.ne.2.1
  | written r hi' hj' hrow hstands hverdict => exact ⟨r, hrow, hstands, hverdict⟩
  | failed h =>
    rcases h with h | h
    · exact absurd (h.symm.trans hi) nofun
    · exact absurd (h.symm.trans hj) nofun

/-- Whichever of the two moves next, the condition on it is met. -/
theorem Decided.unhurried {other : ℕ → ℕ} (hi : other i = j) (hj : other j = i)
    (h : E.Decided Alike Stands s i j Q) {k : ℕ} (hk : k = i ∨ k = j) :
    E.Unhurried Already other s k := by
  intro v w r hready hholds _
  by_cases hfailed : E.phase (s.locals i) = .failed ∨ E.phase (s.locals j) = .failed
  · rcases hk with rfl | rfl
    · rw [hi] at hholds
      rcases hfailed with hf | hf
      · exact absurd (hf.symm.trans hready) nofun
      · exact absurd hf hholds.ne.2.2
    · rw [hj] at hholds
      rcases hfailed with hf | hf
      · exact absurd hf hholds.ne.2.2
      · exact absurd (hf.symm.trans hready) nofun
  · have hwritten := h.first hfailed
    rcases hk with rfl | rfl
    · exact absurd (hwritten.symm.trans hready) nofun
    · rw [hj] at hholds
      exact absurd hwritten hholds.ne.2.1

variable (laws : EditLaws read Write Alike Stands Already)

include laws

/-- The verdict stays as it is when the second edit takes a step. -/
theorem Decided.step_second (hij : i ≠ j) (hsound : E.Sound (s.locals j))
    (h : E.Decided Alike Stands s i j Q) (hstep : p.machine.step s (j, a) = some t) :
    E.Decided Alike Stands t i j Q := by
  obtain ⟨-, hasks, hedit, hothers⟩ := step_cases hsound hstep
  have hfirst := hothers i hij
  by_cases hfailed : E.phase (s.locals i) = .failed ∨ E.phase (s.locals j) = .failed
  · refine .failed ?_
    rw [hfirst]
    exact hfailed.imp_right hedit.of_failed
  rcases hedit.cases with ⟨r₀, hphase, hafter, hrow, hrow'⟩ | ⟨v₀, hphase, hafter, hrow'⟩ |
    ⟨v₀, r₀, r', hphase, hafter, hrow, hrow', hwrite⟩ | ⟨hphase, hafter, hrow'⟩ | ⟨hafter, hrow'⟩
  · -- it reads the row
    cases h with
    | fresh r hi hj hr hstands hQ =>
      obtain rfl : r = r₀ := Option.some.inj (hr.symm.trans hrow)
      refine .holds r _ (hfirst ▸ hi) hafter (hrow'.trans hrow) (hasks ▸ laws.read_alike _ r) ?_
      intro r' hwrite
      rw [hasks] at hwrite
      rw [hfirst, hasks]
      exact iff_of_true (laws.serial hstands hwrite) hQ
    | holds r v hi hj => exact absurd hphase hj.ne.1
    | written r hi hj => exact absurd (hj.symm.trans hphase) nofun
    | failed h => exact absurd h hfailed
  · -- it goes on reading
    cases h with
    | fresh r hi hj => exact absurd (hj.symm.trans hphase) nofun
    | holds r v hi hj hr halike hverdict =>
      have hv : (.ready v₀ : Phase ν).Holds v := by
        rcases hj with hj | hj
        · exact .inr (by rw [Phase.loaded.inj (hphase.symm.trans hj)])
        · exact absurd (hj.symm.trans hphase) nofun
      refine .holds r v (hfirst ▸ hi) (hafter ▸ hv) (hrow'.trans hr) (hasks ▸ halike) ?_
      rw [hfirst, hasks]
      exact hverdict
    | written r hi hj => exact absurd (hj.symm.trans hphase) nofun
    | failed h => exact absurd h hfailed
  · -- it writes
    cases h with
    | fresh r hi hj => exact absurd (hj.symm.trans hphase) nofun
    | holds r v hi hj hr halike hverdict =>
      obtain rfl : r = r₀ := Option.some.inj (hr.symm.trans hrow)
      obtain rfl : v = v₀ := by
        rcases hj with hj | hj
        · exact absurd (hj.symm.trans hphase) nofun
        · exact Phase.ready.inj (hj.symm.trans hphase)
      refine .written r' (hfirst ▸ hi) hafter hrow' ?_ ?_
      · rw [hfirst, hasks]
        exact laws.own halike hwrite
      · rw [hfirst, hasks]
        exact hverdict r' hwrite
    | written r hi hj => exact absurd (hj.symm.trans hphase) nofun
    | failed h => exact absurd h hfailed
  · -- it has written before
    cases h with
    | fresh r hi hj => exact absurd (hj.symm.trans hphase) nofun
    | holds r v hi hj => exact absurd hphase hj.ne.2.1
    | written r hi hj hr hstands hverdict =>
      refine .written r (hfirst ▸ hi) hafter (hrow'.trans hr) ?_ ?_
      · rw [hfirst, hasks]
        exact hstands
      · rw [hfirst, hasks]
        exact hverdict
    | failed h => exact absurd h hfailed
  · exact .failed (.inr hafter)

/-- A run of the two from there on keeps the verdict, and meets the condition. -/
theorem Decided.run (hij : i ≠ j) {other : ℕ → ℕ} (hi : other i = j) (hj : other j = i)
    (hsound : E.Sound (s.locals i) ∧ E.Sound (s.locals j)) (h : E.Decided Alike Stands s i j Q)
    {as : List (ℕ × ℓ)} (has : ∀ a ∈ as, a.1 = i ∨ a.1 = j) (hrun : p.machine.run s as = some t) :
    E.Decided Alike Stands t i j Q ∧
      p.machine.Along (fun s a => E.Unhurried Already other s a.1) s as := by
  induction as generalizing s with
  | nil =>
    obtain rfl : s = t := by simpa using hrun
    exact ⟨h, trivial⟩
  | cons a as ih =>
    obtain ⟨v, hstep, hrest⟩ := p.machine.run_cons_eq_some.1 hrun
    obtain ⟨k, a⟩ := a
    have hk := has (k, a) List.mem_cons_self
    have hnext :
        E.Decided Alike Stands v i j Q ∧ E.Sound (v.locals i) ∧ E.Sound (v.locals j) := by
      rcases hk with rfl | rfl
      · obtain ⟨hown, -, -, hothers⟩ := step_cases hsound.1 hstep
        exact ⟨h.step_first hij hsound.1 hstep, hown, hothers j hij.symm ▸ hsound.2⟩
      · obtain ⟨hown, -, -, hothers⟩ := step_cases hsound.2 hstep
        exact ⟨h.step_second laws hij hsound.2 hstep, hothers i hij ▸ hsound.1, hown⟩
    obtain ⟨hend, halong⟩ :=
      ih hnext.2 hnext.1 (fun b hb => has b (List.mem_cons_of_mem _ hb)) hrest
    refine ⟨hend, h.unhurried hi hj hk, fun w hw => ?_⟩
    obtain rfl : v = w := Option.some.inj (hstep.symm.trans hw)
    exact halong

/-- An edit that has failed has no verdict, as it never writes. -/
theorem not_written_of_failed (hij : i ≠ j) {other : ℕ → ℕ} (hi : other i = j) (hj : other j = i)
    (hsound : E.Sound (s.locals i) ∧ E.Sound (s.locals j))
    (hfailed : E.phase (s.locals i) = .failed)
    {as : List (ℕ × ℓ)} (has : ∀ a ∈ as, a.1 = i ∨ a.1 = j) (hrun : p.machine.run s as = some t) :
    ¬ (E.phase (t.locals i) = .written ∧ E.phase (t.locals j) = .written) := by
  rintro ⟨hwritten, hwritten'⟩
  have hdecided : ∀ Q, E.Decided Alike Stands t i j Q := fun Q =>
    (Decided.run laws hij hi hj hsound (.failed (.inl hfailed)) has hrun).1
  obtain ⟨r, hrow, -, htrue⟩ := (hdecided True).verdict hwritten hwritten'
  obtain ⟨r', hrow', -, hfalse⟩ := (hdecided False).verdict hwritten hwritten'
  obtain rfl : r = r' := Option.some.inj (hrow.symm.trans hrow')
  exact hfalse.mp (htrue.mpr trivial)

/-- What the step of an early edit leads to. -/
theorem early_step (hij : i ≠ j) (hsound : E.Sound (s.locals i)) (hi : E.Early s i)
    (hj : E.Early s j) (hstep : p.machine.step s (i, a) = some t) :
    (E.Early t i ∧ E.Early t j ∧ ∀ v, E.phase (s.locals i) ≠ .ready v) ∨
      (∃ v r, E.phase (s.locals i) = .ready v ∧ E.row s.shared = some r ∧
        E.Decided Alike Stands t i j
          (∀ w, (E.phase (s.locals j)).Holds w →
            Already (E.asks (s.locals i)) (E.asks (s.locals j)) r)) ∨
      E.phase (t.locals i) = .failed := by
  obtain ⟨-, hasks, hedit, hothers⟩ := step_cases hsound hstep
  have hsecond := hothers j hij.symm
  rcases hedit.cases with ⟨r, hphase, hafter, hrow, hrow'⟩ | ⟨v, hphase, hafter, hrow'⟩ |
    ⟨v, r, r', hphase, hafter, hrow, hrow', hwrite⟩ | ⟨hphase, -⟩ | ⟨hafter, -⟩
  · refine .inl ⟨.inr ⟨r, hasks ▸ hafter, hrow'.trans hrow⟩, ?_, fun v hv => ?_⟩
    · rw [Early, hsecond, hrow']
      exact hj
    · exact nomatch hphase.symm.trans hv
  · rcases hi with hi | ⟨r, hi, hrow⟩
    · exact absurd (hi.symm.trans hphase) nofun
    · refine .inl ⟨.inr ⟨r, .inr ?_, hrow'.trans hrow⟩, ?_, fun w hw => ?_⟩
      rotate_left 2
      · exact nomatch hphase.symm.trans hw
      · rcases hi with hi | hi
        · rw [hafter, hasks, Phase.loaded.inj (hphase.symm.trans hi)]
        · exact absurd (hphase.symm.trans hi) nofun
      · rw [Early, hsecond, hrow']
        exact hj
  · obtain rfl : v = read (E.asks (s.locals i)) r := by
      rcases hi with hi | ⟨r₀, hi, hrow₀⟩
      · exact absurd (hi.symm.trans hphase) nofun
      · obtain rfl : r₀ = r := Option.some.inj (hrow₀.symm.trans hrow)
        rcases hi with hi | hi
        · exact absurd (hi.symm.trans hphase) nofun
        · exact Phase.ready.inj (hphase.symm.trans hi)
    refine .inr (.inl ⟨_, r, hphase, hrow, ?_⟩)
    rcases hj with hj | ⟨r₀, hj, hrow₀⟩
    · refine .fresh r' hafter (hsecond ▸ hj) hrow' ?_ fun w hw => absurd hj hw.ne.1
      rw [hsecond, hasks]
      exact laws.own (laws.read_alike _ r) hwrite
    · obtain rfl : r₀ = r := Option.some.inj (hrow₀.symm.trans hrow)
      refine .holds r' _ hafter (hsecond ▸ hj) hrow'
        (hsecond ▸ laws.write_alike hwrite (laws.read_alike _ r₀)) ?_
      intro r'' hwrite'
      rw [hsecond] at hwrite' ⊢
      rw [hasks, laws.overlap hwrite hwrite']
      exact ⟨fun h _ _ => h, fun h => h _ hj⟩
  · rcases hi with hi | ⟨r, hi, -⟩
    · exact absurd (hi.symm.trans hphase) nofun
    · exact absurd hphase hi.ne.2.1
  · exact .inr (.inr hafter)

/-- Two edits of one row: both requests stand after the writes exactly when no edit writes while
the other one holds what it has read, but for writes that change nothing. -/
theorem stand_iff (other : ℕ → ℕ) (hij : i ≠ j) (hother : other i = j) (hother' : other j = i)
    (hsound : E.Sound (s.locals i) ∧ E.Sound (s.locals j)) (hearly : E.Early s i ∧ E.Early s j)
    {as : List (ℕ × ℓ)} (has : ∀ a ∈ as, a.1 = i ∨ a.1 = j) (hrun : p.machine.run s as = some t)
    (hwritten : E.phase (t.locals i) = .written ∧ E.phase (t.locals j) = .written) :
    ∃ r, E.row t.shared = some r ∧
      ((Stands (E.asks (t.locals i)) (E.asks (t.locals j)) r ∧
          Stands (E.asks (t.locals j)) (E.asks (t.locals i)) r) ↔
        p.machine.Along (fun s a => E.Unhurried Already other s a.1) s as) := by
  induction as generalizing s i j with
  | nil =>
    obtain rfl : s = t := by simpa using hrun
    rcases hearly.1 with h | ⟨r, h, -⟩
    · exact absurd (h.symm.trans hwritten.1) nofun
    · exact absurd hwritten.1 h.ne.2.1
  | cons a as ih =>
    obtain ⟨v, hstep, hrest⟩ := p.machine.run_cons_eq_some.1 hrun
    obtain ⟨k, a⟩ := a
    have htail : ∀ b ∈ as, b.1 = i ∨ b.1 = j := fun b hb => has b (List.mem_cons_of_mem _ hb)
    have hk := has (k, a) List.mem_cons_self
    -- the claim is the same for the two the other way round
    wlog hki : k = i generalizing i j
    · obtain ⟨r, hrow, hiff⟩ := this hij.symm hother' hother hsound.symm hearly.symm
        hwritten.symm (fun b hb => (has b hb).symm) (fun b hb => (htail b hb).symm) hk.symm
        (hk.resolve_left hki)
      exact ⟨r, hrow, and_comm.trans hiff⟩
    subst hki
    obtain ⟨hown, -, -, hothers⟩ := step_cases hsound.1 hstep
    have hsound' : E.Sound (v.locals k) ∧ E.Sound (v.locals j) :=
      ⟨hown, hothers j hij.symm ▸ hsound.2⟩
    rcases early_step laws hij hsound.1 hearly.1 hearly.2 hstep with
      ⟨hk', hj', hready⟩ | ⟨w, r, hready, hrow, hdecided⟩ | hfailed
    · obtain ⟨r, hrow, hiff⟩ := ih hij hother hother' hsound' ⟨hk', hj'⟩ htail hrest hwritten
      refine ⟨r, hrow, hiff.trans ⟨fun h => ⟨fun w _ _ hw => absurd hw (hready w), fun u hu => ?_⟩,
        fun h => h.2 v hstep⟩⟩
      obtain rfl : v = u := Option.some.inj (hstep.symm.trans hu)
      exact h
    · obtain ⟨hend, halong⟩ := hdecided.run laws hij hother hother' hsound' htail hrest
      obtain ⟨r', hrow', hstands, hiff⟩ := hend.verdict hwritten.1 hwritten.2
      refine ⟨r', hrow', (and_iff_left hstands).trans (hiff.trans ⟨fun h => ⟨?_, fun u hu => ?_⟩,
        fun h x hx => ?_⟩)⟩
      · intro w' x r'' _ hx hr''
        rw [hother] at hx ⊢
        obtain rfl : r = r'' := Option.some.inj (hrow.symm.trans hr'')
        exact h x hx
      · obtain rfl : v = u := Option.some.inj (hstep.symm.trans hu)
        exact halong
      · have hfirst := h.1 w x r hready
        simp only [hother] at hfirst
        exact hfirst hx hrow
    · exact absurd hwritten
        (not_written_of_failed laws hij hother hother' hsound' hfailed htail hrest)

end

end EditProcess

end Purels.Lib
