import Purels.Service.Health

/-!
# The health sweep

`sweepHealth` of the worker, and what a sweep does to a row.

* `Sweep`: the clock and the answers that one sweep finds.
* `sweepTargets`, `sweepHealth`: the loop over the links that are due.
* `RecordedBy`, `sweepHealth_links`: the rows afterwards.
-/

namespace Purels.Worker

open Go Store Service LinkStore

/-- What the check of one target finds: the time, and the client's answer. -/
structure SweepCheck where
  now : Instant
  ask : Url → ProbeAnswer

/-- An uncancelled sweep: when it starts, and its checks in their order.  Time does not run
backwards. -/
structure Sweep where
  start : Instant
  checks : Nat → SweepCheck
  later : ∀ i, start ≤ (checks i).now

variable (u : Unicode)

/-- The loop of `sweepHealth`; a check that fails is logged and skipped. -/
def sweepTargets (checks : Nat → SweepCheck) : Nat → List LinkTarget → LinkStore → LinkStore
  | _, [], s => s
  | i, target :: targets, s =>
    sweepTargets checks (i + 1) targets
      (Check (destinationProbe u (checks i).ask) target.id target.destinationURL (checks i).now
        s).2

/-- `sweepHealth`. -/
def sweepHealth (batch : Nat) (staleAfter : Int) (sweep : Sweep) (s : LinkStore) : LinkStore :=
  sweepTargets u sweep.checks 0 (s.LinksDueForCheck (sweep.start - staleAfter) batch) s

/-! ## The rows afterwards -/

/-- The health columns have been written since the start. -/
def RecordedBy (start : Instant) (row row' : LinkRow) : Prop :=
  ∃ checkedAt statusCode, toMicroseconds start ≤ checkedAt ∧
    row' = { row with lastCheckedAt := some checkedAt, lastStatusCode := some statusCode }

/-- The target's row is among those a request could be made for. -/
def Requested (targets : List LinkTarget) (row : LinkRow) : Prop :=
  ∃ target ∈ targets, target.id = row.id ∧ (Url.parse u target.destinationURL).isSome

variable {u} {start : Instant}

/-- The loop records the targets a request can be made for, and touches nothing else. -/
theorem sweepTargets_links {checks : Nat → SweepCheck} (hlater : ∀ i, start ≤ (checks i).now)
    (targets : List LinkTarget) (i : Nat) (s : LinkStore) :
    ∃ f : LinkRow → LinkRow, (sweepTargets u checks i targets s).links = s.links.map f ∧
      ∀ row, (Requested u targets row → RecordedBy start row (f row)) ∧
        (¬ Requested u targets row → f row = row) := by
  induction targets generalizing i s with
  | nil =>
    refine ⟨id, (List.map_id s.links).symm, fun row => ⟨?_, fun _ => rfl⟩⟩
    rintro ⟨target, hmem, -⟩
    cases hmem
  | cons target targets ih =>
    rw [sweepTargets]
    rcases Check_destinationProbe u (checks i).ask target.id target.destinationURL (checks i).now s
      with ⟨hsame, hnone⟩ | ⟨hsome, statusCode, hrecord⟩
    · rw [hsame]
      obtain ⟨f, hlinks, hf⟩ := ih (i + 1) s
      refine ⟨f, hlinks, fun row => ?_⟩
      have hrequested : Requested u (target :: targets) row ↔ Requested u targets row := by
        simp [Requested, hnone]
      rw [hrequested]
      exact hf row
    · rw [hrecord]
      let set : LinkRow → LinkRow := fun row =>
        { row with
          lastCheckedAt := some (toMicroseconds (checks i).now)
          lastStatusCode := some statusCode }
      obtain ⟨f, hlinks, hf⟩ := ih (i + 1) (s.updateLinks (fun row => row.id == target.id) set)
      refine ⟨fun row => f (if row.id == target.id then set row else row), ?_, fun row => ?_⟩
      · rw [hlinks]
        exact List.map_map
      have hrequested : Requested u (target :: targets) row ↔
          row.id = target.id ∨ Requested u targets row := by
        constructor
        · rintro ⟨other, hmem, hid, hparse⟩
          rcases List.mem_cons.mp hmem with rfl | hmem
          · exact .inl hid.symm
          · exact .inr ⟨other, hmem, hid, hparse⟩
        · rintro (hid | ⟨other, hmem, hrest⟩)
          · exact ⟨target, List.mem_cons_self, hid.symm, hsome⟩
          · exact ⟨other, List.mem_cons_of_mem target hmem, hrest⟩
      by_cases hid : row.id = target.id
      · have hset : RecordedBy start row (set row) :=
          ⟨_, statusCode, toMicroseconds_mono (hlater i), rfl⟩
        obtain ⟨hrecorded, hkept⟩ := hf (set row)
        refine ⟨fun _ => ?_, fun hnot => absurd (hrequested.mpr (.inl hid)) hnot⟩
        dsimp only
        rw [if_pos (beq_iff_eq.mpr hid)]
        -- a later target of the same row may record it again
        by_cases hagain : Requested u targets (set row)
        · obtain ⟨checkedAt, statusCode', hle, heq⟩ := hrecorded hagain
          exact ⟨checkedAt, statusCode', hle, heq⟩
        · rw [hkept hagain]
          exact hset
      · dsimp only
        rw [if_neg (by simpa using hid), hrequested, or_iff_right hid]
        exact hf row

/-- A sweep records the links that it selects and can ask for. -/
theorem sweepHealth_links (batch : Nat) (staleAfter : Int) (sweep : Sweep) (s : LinkStore) :
    ∃ f : LinkRow → LinkRow, (sweepHealth u batch staleAfter sweep s).links = s.links.map f ∧
      ∀ row,
        (Requested u (s.LinksDueForCheck (sweep.start - staleAfter) batch) row →
          RecordedBy sweep.start row (f row)) ∧
        (¬ Requested u (s.LinksDueForCheck (sweep.start - staleAfter) batch) row → f row = row) :=
  sweepTargets_links sweep.later _ 0 s

end Purels.Worker
