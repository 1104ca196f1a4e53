import Purels.Config.Provider

/-!
# The runtime settings as a versioned register

Runs of any number of calls in any number of processes.

* `Committed`: the rows that have been in the table.
* `Held`: what a call in progress holds.
* `Register`: the invariant of a run, with the states it has visited.
* `settings_register`, the run theorem.
-/

namespace Purels.Properties

open Go Store Config Lib

/-! ## Effects -/

/-- The phases a call moves to without changing the shared state. -/
inductive Moves (u : Unicode) (w : ProviderWorld) (process : ℕ) :
    ProviderPhase → ProviderPhase → Prop
  | readFailed (why : ReadFor) (e : ServiceError) : Moves u w process (.read why) (why.failed e)
  /-- The process has published something at least as new. -/
  | settled (ptr : ℕ) (settings : RuntimeSettings) (next : PublishThen) :
      Moves u w process (.load ptr settings next) (next.phase u settings)
  | loaded (ptr : ℕ) (settings : RuntimeSettings) (next : PublishThen)
      (hnewer : ∀ current, w.current process = some current →
        current.revision < settings.revision) :
      Moves u w process (.load ptr settings next) (.swap ptr settings (w.cells process) next)
  | again (ptr : ℕ) (settings : RuntimeSettings) (seen : Option ℕ) (next : PublishThen) :
      Moves u w process (.swap ptr settings seen next) (.load ptr settings next)
  | updateFailed (input : RuntimeSettingsInput) (e : ServiceError) :
      Moves u w process (.update input) (.done (.failed (.store e)))
  | swapFailed (input : RuntimeSettingsInput) (p : RuntimeSettingsPatch)
      (seen : RuntimeSettings) (e : ServiceError) :
      Moves u w process (.compareAndSwap input p seen)
        (writeFailed e (.compareAndSwap input p seen))

/-- The write a phase makes in a row. -/
def Writes (input : RuntimeSettingsInput) (before : RuntimeSettings) : ProviderPhase → Prop
  | .update new => new = input
  | .compareAndSwap new p _ => new = input ∧ before.revision = p.revision
  | _ => False

/-- What a step can do. -/
inductive ProviderEffect (u : Unicode) (w : ProviderWorld) (call : ProviderCall) :
    ProviderAction → ProviderWorld → ProviderCall → Prop
  | started (process : ℕ) (request : ProviderRequest) :
      ProviderEffect u w call (.start process request) w
        { process, request, wrote := none, phase := request.phase u }
  | moved {a : ProviderAction} {phase : ProviderPhase} (h : Moves u w call.process call.phase phase) :
      ProviderEffect u w call a w { call with phase }
  | published {now : Instant} (why : ReadFor) (settings : RuntimeSettings)
      (hphase : call.phase = .read why) (hrow : w.row = some settings) :
      ProviderEffect u w call (.next now) { w with heap := w.heap ++ [settings] }
        { call with phase := .load w.heap.length settings why.next }
  | swapped {now : Instant} (ptr : ℕ) (settings : RuntimeSettings) (next : PublishThen)
      (hphase : call.phase = .swap ptr settings (w.cells call.process) next) :
      ProviderEffect u w call (.next now)
        { w with cells := Function.update w.cells call.process (some ptr) }
        { call with phase := next.phase u settings }
  | wrote (input : RuntimeSettingsInput) (before : RuntimeSettings) (now : Instant)
      (hphase : Writes input before call.phase) (hrow : w.row = some before) :
      ProviderEffect u w call (.next now)
        { w with
          row := some (nextSettings input now before)
          heap := w.heap ++ [nextSettings input now before] }
        { call with
          wrote := some (before, nextSettings input now before)
          phase := .load w.heap.length (nextSettings input now before)
            (.finish (.saved (nextSettings input now before))) }

section

variable {u : Unicode} {w w' : ProviderWorld} {call call' : ProviderCall}

/-- A write that the table accepts, or one it refuses. -/
theorem writeStep_effect (input : RuntimeSettingsInput) (revision : Int) {now : Instant}
    (hwrites : ∀ before, w.row = some before → (revision = 0 ∨ before.revision = revision) →
      Writes input before call.phase)
    (hfailed : ∀ e, Moves u w call.process call.phase (writeFailed e call.phase)) :
    ProviderEffect u w call (.next now)
      (writeStep (updateRuntimeSettings input revision now w.row) w call).1
      (writeStep (updateRuntimeSettings input revision now w.row) w call).2 := by
  cases hupdate : updateRuntimeSettings input revision now w.row with
  | mk result row =>
    cases result with
    | error e =>
      obtain rfl := updateRuntimeSettings_error hupdate
      exact .moved (hfailed e)
    | ok settings =>
      obtain ⟨before, hrow, hrevision, rfl, rfl⟩ := updateRuntimeSettings_ok hupdate
      have hwrote : ProviderEffect u w call (.next now) _ _ :=
        .wrote input before now (hwrites before hrow hrevision) hrow
      simpa only [writeStep, publish, hrow, Option.map_some] using hwrote

theorem providerStep_effect {now : Instant} (hstep : providerStep u now w call = some (w', call')) :
    ProviderEffect u w call (.next now) w' call' := by
  unfold providerStep at hstep
  cases hphase : call.phase with
  | idle | done => simp [hphase] at hstep
  | read why =>
    simp only [hphase] at hstep
    cases hrow : w.row with
    | none =>
      rw [hrow] at hstep
      obtain ⟨rfl, rfl⟩ := Prod.mk.inj (Option.some.inj hstep)
      exact .moved (hphase ▸ .readFailed why .notFound)
    | some settings =>
      rw [hrow] at hstep
      obtain ⟨rfl, rfl⟩ := Prod.mk.inj (Option.some.inj hstep)
      exact .published why settings hphase hrow
  | load ptr settings next =>
    simp only [hphase] at hstep
    split_ifs at hstep with hnew
    · obtain ⟨rfl, rfl⟩ := Prod.mk.inj (Option.some.inj hstep)
      exact .moved (hphase ▸ .settled ptr settings next)
    · obtain ⟨rfl, rfl⟩ := Prod.mk.inj (Option.some.inj hstep)
      refine .moved (hphase ▸ .loaded ptr settings next fun current hcurrent => ?_)
      simpa [hcurrent] using hnew
  | swap ptr settings seen next =>
    simp only [hphase] at hstep
    split_ifs at hstep with hsame
    · obtain ⟨rfl, rfl⟩ := Prod.mk.inj (Option.some.inj hstep)
      exact .swapped ptr settings next (hsame ▸ hphase)
    · obtain ⟨rfl, rfl⟩ := Prod.mk.inj (Option.some.inj hstep)
      exact .moved (hphase ▸ .again ptr settings seen next)
  | update input =>
    simp only [hphase] at hstep
    have heffect : ProviderEffect u w call (.next now) _ _ :=
      writeStep_effect input 0 (fun before _ _ => by rw [hphase]; rfl)
        fun e => by rw [hphase]; exact .updateFailed input e
    rw [← UpdateRuntimeSettings, Option.some.inj hstep] at heffect
    exact heffect
  | compareAndSwap input p seen =>
    simp only [hphase, CompareAndSwapRuntimeSettings] at hstep
    split_ifs at hstep with hrevision
    · obtain ⟨rfl, rfl⟩ := Prod.mk.inj (Option.some.inj hstep)
      exact .moved (hphase ▸ .swapFailed input p seen .conflict)
    · have heffect : ProviderEffect u w call (.next now) _ _ :=
        writeStep_effect input p.revision
          (fun before _ hbefore => by
            rw [hphase]
            exact ⟨rfl, hbefore.resolve_left (by omega)⟩)
          fun e => by rw [hphase]; exact .swapFailed input p seen e
      rw [Option.some.inj hstep] at heffect
      exact heffect

/-- Every step of a process has one of the effects. -/
theorem providerCalls_effect {a : ProviderAction}
    (hstep : (providerCalls u).step w call a = some (w', call')) :
    ProviderEffect u w call a w' call' := by
  cases a with
  | start process request =>
    simp only [providerCalls] at hstep
    split_ifs at hstep
    obtain ⟨rfl, rfl⟩ := Prod.mk.inj (Option.some.inj hstep)
    exact .started process request
  | next now => exact providerStep_effect hstep
  | fail e =>
    simp only [providerCalls, failStep, Option.map_eq_some_iff] at hstep
    obtain ⟨moved, hmoved, hpair⟩ := hstep
    obtain ⟨rfl, rfl⟩ := Prod.mk.inj hpair
    cases hphase : call.phase with
    | read why =>
      simp only [hphase] at hmoved
      obtain rfl := Option.some.inj hmoved
      exact .moved (hphase ▸ .readFailed why e)
    | update input =>
      simp only [hphase] at hmoved
      obtain rfl := Option.some.inj hmoved
      refine .moved ?_
      rw [hphase]
      exact .updateFailed input e
    | compareAndSwap input p seen =>
      simp only [hphase] at hmoved
      obtain rfl := Option.some.inj hmoved
      refine .moved ?_
      rw [hphase]
      exact .swapFailed input p seen e
    | _ => simp [hphase] at hmoved

end

/-! ## Rows -/

/-- The row has been in the table in one of the states. -/
def Committed (vs : List (Pool ProviderWorld ProviderCall)) (x : RuntimeSettings) : Prop :=
  ∃ v ∈ vs, v.shared.row = some x

section

variable (u : Unicode)

/-- Settings that normalize to themselves. -/
def NormalSettings (input : RuntimeSettingsInput) : Prop :=
  NormalizeRuntimeSettings u input = .ok input

/-- What a call has saved, by its request. -/
def Saved (before after : RuntimeSettings) : ProviderRequest → Prop
  | .refresh => False
  | .update input => NormalizeRuntimeSettings u input = .ok after.toRuntimeSettingsInput
  | .patch p => before.revision = p.revision ∧
      (∃ merged, p.Apply u before.toRuntimeSettingsInput = .ok merged ∧
        NormalizeRuntimeSettings u merged = .ok after.toRuntimeSettingsInput) ∧
      ∀ field, ¬ p.Supplies u field →
        after.toRuntimeSettingsInput.read field = before.toRuntimeSettingsInput.read field

/-- A field that normalization finds as it is in normal settings stays as it is. -/
theorem normalize_read {merged out before : RuntimeSettingsInput} {field : SettingsField}
    (h : NormalizeRuntimeSettings u merged = .ok out) (hbefore : NormalSettings u before)
    (hsame : merged.read field = before.read field) : out.read field = before.read field := by
  obtain ⟨⟨-, -, -, hshort, hdeny⟩, hout⟩ := normalizeRuntimeSettings_ok u h
  obtain ⟨⟨-, -, -, hshort', hdeny'⟩, hout'⟩ := normalizeRuntimeSettings_ok u hbefore
  cases field with
  | aliasMode =>
    have hmode : merged.aliasMode = before.aliasMode := SettingsValue.text.inj hsame
    have hnormal : before.aliasMode = toLower u (trimSpace before.aliasMode) :=
      congrArg RuntimeSettingsInput.aliasMode hout'
    rw [hout]
    simp only [RuntimeSettingsInput.read, hmode]
    rw [← hnormal]
  | fallbackURL =>
    have hurl : merged.fallbackURL = before.fallbackURL := SettingsValue.text.inj hsame
    have hnormal : before.fallbackURL = trimSpace before.fallbackURL :=
      congrArg RuntimeSettingsInput.fallbackURL hout'
    rw [hout]
    simp only [RuntimeSettingsInput.read, hurl]
    rw [← hnormal]
  | destinationDenylist =>
    have hlist : merged.destinationDenylist = before.destinationDenylist :=
      SettingsValue.texts.inj hsame
    rw [hlist, hdeny'] at hdeny
    simp only [RuntimeSettingsInput.read]
    rw [Except.ok.inj hdeny]
  | shortDomains =>
    have hlist : merged.shortDomains = before.shortDomains := SettingsValue.texts.inj hsame
    rw [hlist, hshort'] at hshort
    simp only [RuntimeSettingsInput.read]
    rw [Except.ok.inj hshort]
  | _ =>
    -- the other fields are not touched
    obtain ⟨mode, url, domains, hosts, rfl⟩ : ∃ mode url domains hosts, out = { merged with
        aliasMode := mode, fallbackURL := url, shortDomains := domains,
        destinationDenylist := hosts } := ⟨_, _, _, _, hout⟩
    exact hsame

/-! ## Calls in progress -/

/-- What a call that returns `result` has done. -/
def Outcome (call : ProviderCall) : ProviderResult → Prop
  | .saved settings => ∃ before, call.wrote = some (before, settings) ∧
      Saved u before settings call.request
  | _ => call.wrote = none

/-- What follows a publication. -/
def NextHeld (call : ProviderCall) : PublishThen → Prop
  | .finish result => Outcome u call result
  | .merge p => call.wrote = none ∧ call.request = .patch p

/-- What a call in progress holds. -/
def Held (vs : List (Pool ProviderWorld ProviderCall)) (heap : List RuntimeSettings)
    (call : ProviderCall) : ProviderPhase → Prop
  | .idle => call.wrote = none
  | .read why => call.wrote = none ∧ ∀ p, why = .patch p → call.request = .patch p
  | .load ptr settings next => heap[ptr]? = some settings ∧ NextHeld u call next
  | .swap ptr settings loaded next => heap[ptr]? = some settings ∧ NextHeld u call next ∧
      ∀ q, loaded = some q → ∃ current, heap[q]? = some current ∧
        current.revision < settings.revision
  | .update input => call.wrote = none ∧
      ∃ raw, call.request = .update raw ∧ NormalizeRuntimeSettings u raw = .ok input
  | .compareAndSwap input p current => call.wrote = none ∧ call.request = .patch p ∧
      Committed vs current ∧ current.revision = p.revision ∧
      ∃ merged, p.Apply u current.toRuntimeSettingsInput = .ok merged ∧
        NormalizeRuntimeSettings u merged = .ok input
  | .done result => Outcome u call result

/-- The invariant of a run that has visited `vs` and is in `s`. -/
structure Register (vs : List (Pool ProviderWorld ProviderCall))
    (s : Pool ProviderWorld ProviderCall) : Prop where
  present : ∀ row, s.shared.row = some row → Committed vs row
  normal : ∀ x, Committed vs x → NormalSettings u x.toRuntimeSettingsInput
  past : ∀ x, Committed vs x → ∃ row, s.shared.row = some row ∧ x.revision ≤ row.revision ∧
    (x.revision = row.revision → x = row)
  heap : ∀ x ∈ s.shared.heap, Committed vs x
  cells : ∀ process ptr, s.shared.cells process = some ptr → ptr < s.shared.heap.length
  calls : ∀ i, Held u vs s.shared.heap (s.locals i) (s.locals i).phase

/-! ## Steps -/

variable {u} {vs : List (Pool ProviderWorld ProviderCall)} {heap more : List RuntimeSettings}
  {call : ProviderCall}

theorem Committed.append (ws : List (Pool ProviderWorld ProviderCall)) {x : RuntimeSettings}
    (h : Committed vs x) : Committed (vs ++ ws) x := by
  obtain ⟨v, hv, hrow⟩ := h
  exact ⟨v, List.mem_append_left _ hv, hrow⟩

theorem committed_concat {t : Pool ProviderWorld ProviderCall} {x : RuntimeSettings} :
    Committed (vs ++ [t]) x ↔ Committed vs x ∨ t.shared.row = some x := by
  simp only [Committed, List.mem_append, List.mem_singleton, or_and_right, exists_or,
    exists_eq_left]

theorem getElem?_append_of_some {ptr : ℕ} {settings : RuntimeSettings}
    (h : heap[ptr]? = some settings) : (heap ++ more)[ptr]? = some settings := by
  rw [List.getElem?_append_left (List.getElem?_eq_some_iff.mp h).1]
  exact h

/-- What a call holds it still holds when others have moved on. -/
theorem Held.mono (ws : List (Pool ProviderWorld ProviderCall)) (more : List RuntimeSettings)
    {phase : ProviderPhase} (h : Held u vs heap call phase) : Held u (vs ++ ws) (heap ++ more) call phase := by
  cases phase with
  | idle | read | update | done => exact h
  | load ptr settings next => exact ⟨getElem?_append_of_some h.1, h.2⟩
  | swap ptr settings seen next =>
    refine ⟨getElem?_append_of_some h.1, h.2.1, fun q hq => ?_⟩
    obtain ⟨current, hcurrent, hlt⟩ := h.2.2 q hq
    exact ⟨current, getElem?_append_of_some hcurrent, hlt⟩
  | compareAndSwap input p seen =>
    exact ⟨h.1, h.2.1, h.2.2.1.append ws, h.2.2.2⟩

/-- A patch after it has published what it read. -/
theorem held_mergePhase {p : RuntimeSettingsPatch} {current : RuntimeSettings}
    (hwrote : call.wrote = none) (hrequest : call.request = .patch p)
    (hcurrent : Committed vs current) : Held u vs heap call (mergePhase u p current) := by
  unfold mergePhase
  split_ifs with hrevision
  · exact hwrote
  split
  · exact hwrote
  rename_i input happly
  split
  · exact hwrote
  rename_i normalized hnormalize
  exact ⟨hwrote, hrequest, hcurrent, not_not.mp hrevision, input, happly, hnormalize⟩

theorem held_next {settings : RuntimeSettings} {next : PublishThen} (h : NextHeld u call next)
    (hsettings : Committed vs settings) : Held u vs heap call (next.phase u settings) := by
  cases next with
  | finish result => exact h
  | merge p => exact held_mergePhase h.1 h.2 hsettings

theorem nextHeld_read {why : ReadFor}
    (h : call.wrote = none ∧ ∀ p, why = .patch p → call.request = .patch p) :
    NextHeld u call why.next := by
  cases why with
  | refresh | conflict => exact h.1
  | patch p => exact ⟨h.1, h.2 p rfl⟩

/-- A request begins without having written. -/
theorem held_request (process : ℕ) (request : ProviderRequest) :
    Held u vs heap { process, request, wrote := none, phase := request.phase u }
      (request.phase u) := by
  cases request with
  | refresh => exact ⟨rfl, fun p hp => by simp at hp⟩
  | update input =>
    simp only [ProviderRequest.phase]
    cases hnormalize : NormalizeRuntimeSettings u input with
    | error e => rfl
    | ok normalized => exact ⟨rfl, input, rfl, hnormalize⟩
  | patch p =>
    simp only [ProviderRequest.phase]
    cases p.Apply u {} with
    | error e => rfl
    | ok input =>
      refine ⟨rfl, fun q hq => ?_⟩
      rw [ReadFor.patch.inj hq]

/-- A call that moves without a change of the shared state. -/
theorem held_moves {w : ProviderWorld} {phase : ProviderPhase}
    (h : Held u vs w.heap call call.phase) (hheap : ∀ x ∈ w.heap, Committed vs x)
    (hcells : ∀ process ptr, w.cells process = some ptr → ptr < w.heap.length)
    (hmoves : Moves u w call.process call.phase phase) :
    Held u vs w.heap { call with phase } phase := by
  generalize hphase : call.phase = before at h hmoves
  cases hmoves with
  | readFailed why e => cases why <;> exact h.1
  | settled ptr settings next =>
    exact held_next h.2 (hheap settings (List.mem_of_getElem? h.1))
  | loaded ptr settings next hnewer =>
    refine ⟨h.1, h.2, fun q hq => ?_⟩
    have hlt := hcells call.process q hq
    refine ⟨w.heap[q], List.getElem?_eq_getElem hlt, hnewer _ ?_⟩
    rw [ProviderWorld.current, hq]
    exact List.getElem?_eq_getElem hlt
  | again ptr settings seen next => exact ⟨h.1, h.2.1⟩
  | updateFailed input e => exact h.1
  | swapFailed input p seen e =>
    unfold writeFailed
    split_ifs
    · exact ⟨h.1, fun p hp => by simp at hp⟩
    · exact h.1

/-- The write of a call saves what its request asks for. -/
theorem saved_write {input : RuntimeSettingsInput} {before : RuntimeSettings} (now : Instant)
    (h : Held u vs heap call call.phase) (hwrites : Writes input before call.phase)
    (hnormal : ∀ x, Committed vs x → NormalSettings u x.toRuntimeSettingsInput)
    (hpast : ∀ x, Committed vs x → x.revision = before.revision → x = before) :
    NormalSettings u input ∧ call.wrote = none ∧
      Saved u before (nextSettings input now before) call.request := by
  generalize hphase : call.phase = phase at h hwrites
  cases phase with
  | update new =>
    obtain rfl : new = input := hwrites
    obtain ⟨hwrote, raw, hrequest, hnormalize⟩ := h
    rw [hrequest]
    exact ⟨normalizeRuntimeSettings_idem u hnormalize, hwrote, hnormalize⟩
  | compareAndSwap new p seen =>
    obtain ⟨rfl, hbefore⟩ := hwrites
    obtain ⟨hwrote, hrequest, hseen, hrevision, merged, happly, hnormalize⟩ := h
    -- the row of that revision is the one the patch was merged into
    obtain rfl : seen = before := hpast seen hseen (hrevision.trans hbefore.symm)
    rw [hrequest]
    refine ⟨normalizeRuntimeSettings_idem u hnormalize, hwrote, hbefore, ⟨merged, happly, hnormalize⟩,
      fun field hnot => ?_⟩
    exact normalize_read u hnormalize (hnormal seen hseen) (Apply_read u happly hnot)
  | _ => exact hwrites.elim

/-! ## The invariant -/

/-- A committed row of the present revision is the present row. -/
theorem Register.past_eq {s : Pool ProviderWorld ProviderCall} (h : Register u vs s)
    {row : RuntimeSettings} (hrow : s.shared.row = some row) :
    ∀ x, Committed vs x → x.revision = row.revision → x = row := by
  intro x hx hrevision
  obtain ⟨present, hsome, -, hsame⟩ := h.past x hx
  obtain rfl := Option.some.inj (hrow.symm.trans hsome)
  exact hsame hrevision

/-- A step that leaves the row. -/
theorem Register.same_row {s t : Pool ProviderWorld ProviderCall} (h : Register u vs s)
    (hrow : t.shared.row = s.shared.row) (hheap : ∀ x ∈ t.shared.heap, Committed vs x)
    (hcells : ∀ process ptr, t.shared.cells process = some ptr → ptr < t.shared.heap.length)
    (hcalls : ∀ i, Held u vs t.shared.heap (t.locals i) (t.locals i).phase) :
    Register u (vs ++ [t]) t := by
  have hback : ∀ x, Committed (vs ++ [t]) x → Committed vs x := by
    intro x hx
    rcases committed_concat.mp hx with hold | hnew
    · exact hold
    · exact h.present x (hrow ▸ hnew)
  refine ⟨fun row hnew => (h.present row (hrow ▸ hnew)).append [t], fun x hx => h.normal x (hback x hx),
    fun x hx => ?_, fun x hx => (hheap x hx).append [t], hcells, fun i => ?_⟩
  · rw [hrow]
    exact h.past x (hback x hx)
  · have hmono := (hcalls i).mono [t] []
    rwa [List.append_nil] at hmono

/-- A step that writes the row. -/
theorem Register.write {s t : Pool ProviderWorld ProviderCall} (h : Register u vs s)
    {input : RuntimeSettingsInput} {before : RuntimeSettings} {now : Instant}
    (hbefore : s.shared.row = some before) (hinput : NormalSettings u input)
    (hshared : t.shared = { s.shared with
      row := some (nextSettings input now before)
      heap := s.shared.heap ++ [nextSettings input now before] })
    (hcalls : ∀ i, Held u (vs ++ [t]) t.shared.heap (t.locals i) (t.locals i).phase) :
    Register u (vs ++ [t]) t := by
  have hrow : t.shared.row = some (nextSettings input now before) := by rw [hshared]
  have hnew : Committed (vs ++ [t]) (nextSettings input now before) :=
    committed_concat.mpr (.inr hrow)
  have hcases : ∀ x, Committed (vs ++ [t]) x → Committed vs x ∨ x = nextSettings input now before := by
    intro x hx
    refine (committed_concat.mp hx).imp_right fun hx => ?_
    exact (Option.some.inj (hrow.symm.trans hx)).symm
  refine ⟨fun row hsome => ?_, fun x hx => ?_, fun x hx => ⟨_, hrow, ?_⟩, fun x hx => ?_,
    fun process ptr hcell => ?_, hcalls⟩
  · obtain rfl := Option.some.inj (hrow.symm.trans hsome)
    exact hnew
  · rcases hcases x hx with hold | rfl
    · exact h.normal x hold
    · exact hinput
  · rcases hcases x hx with hold | rfl
    · -- rows committed before have earlier revisions
      obtain ⟨row, hsome, hle, -⟩ := h.past x hold
      obtain rfl := Option.some.inj (hbefore.symm.trans hsome)
      show x.revision ≤ before.revision + 1 ∧ (x.revision = before.revision + 1 → _)
      exact ⟨by omega, fun heq => absurd heq (by omega)⟩
    · exact ⟨le_rfl, fun _ => rfl⟩
  · rw [hshared] at hx
    rcases List.mem_append.mp hx with hold | hlast
    · exact (h.heap x hold).append [t]
    · rw [List.mem_singleton.mp hlast]
      exact hnew
  · rw [hshared] at hcell ⊢
    have hlt := h.cells process ptr hcell
    rw [List.length_append]
    omega

/-- Every step keeps it. -/
theorem Register.step {s t : Pool ProviderWorld ProviderCall} {i : ℕ} {a : ProviderAction}
    (h : Register u vs s) (hstep : (providerCalls u).machine.step s (i, a) = some t) :
    Register u (vs ++ [t]) t := by
  obtain ⟨call', hstep, hi, hothers⟩ := Process.step_cases hstep
  have heffect := providerCalls_effect hstep
  have hown := h.calls i
  generalize hshared : t.shared = w' at heffect
  have hcalls : ∀ vs' more, Held u (vs ++ vs') (s.shared.heap ++ more) call' call'.phase →
      ∀ j, Held u (vs ++ vs') (s.shared.heap ++ more) (t.locals j) (t.locals j).phase := by
    intro vs' more hmoved j
    by_cases hji : j = i
    · rw [hji, hi]
      exact hmoved
    · rw [hothers j hji]
      exact (h.calls j).mono vs' more
  have hkept : t.shared.heap = s.shared.heap → Held u vs s.shared.heap call' call'.phase →
      ∀ j, Held u vs t.shared.heap (t.locals j) (t.locals j).phase := by
    intro hheap hmoved
    have hall := hcalls [] []
    simp only [List.append_nil] at hall
    rw [hheap]
    exact hall hmoved
  cases heffect with
  | started process request =>
    refine h.same_row (by rw [hshared]) (by rw [hshared]; exact h.heap)
      (by rw [hshared]; exact h.cells) (hkept (by rw [hshared]) (held_request process request))
  | moved hmoves =>
    refine h.same_row (by rw [hshared]) (by rw [hshared]; exact h.heap)
      (by rw [hshared]; exact h.cells)
      (hkept (by rw [hshared]) (held_moves hown h.heap h.cells hmoves))
  | published why settings hphase hrow =>
    rw [hphase] at hown
    have hpublished : Held u (vs ++ []) (s.shared.heap ++ [settings])
        { s.locals i with phase := .load s.shared.heap.length settings why.next }
        (.load s.shared.heap.length settings why.next) :=
      ⟨by simp, nextHeld_read hown⟩
    refine h.same_row (by rw [hshared]) ?_ ?_ ?_
    · rw [hshared]
      intro x hx
      rcases List.mem_append.mp hx with hold | hlast
      · exact h.heap x hold
      · rw [List.mem_singleton.mp hlast]
        exact h.present settings hrow
    · rw [hshared]
      intro process ptr hcell
      have hlt := h.cells process ptr hcell
      rw [List.length_append]
      omega
    · have hall := hcalls [] [settings] hpublished
      rw [List.append_nil] at hall
      rw [hshared]
      exact hall
  | swapped ptr settings next hphase =>
    rw [hphase] at hown
    have hptr := (List.getElem?_eq_some_iff.mp hown.1).1
    refine h.same_row (by rw [hshared]) (by rw [hshared]; exact h.heap) ?_
      (hkept (by rw [hshared]) (held_next hown.2.1 (h.heap settings (List.mem_of_getElem? hown.1))))
    rw [hshared]
    intro process q hq
    by_cases hprocess : process = (s.locals i).process
    · rw [hprocess] at hq
      obtain rfl : ptr = q := by simpa using hq
      exact hptr
    · exact h.cells process q (by simpa [hprocess] using hq)
  | wrote input before now hphase hrow =>
    obtain ⟨hinput, -, hsaved⟩ := saved_write now hown hphase h.normal (h.past_eq hrow)
    refine h.write hrow hinput hshared ?_
    rw [hshared]
    exact hcalls [t] [_] ⟨by simp, before, rfl, hsaved⟩

/-- A published snapshot is replaced by a newer one only. -/
theorem Register.publishes {s t : Pool ProviderWorld ProviderCall} {i : ℕ} {a : ProviderAction}
    (h : Register u vs s) (hstep : (providerCalls u).machine.step s (i, a) = some t)
    {process : ℕ} {x : RuntimeSettings} (hx : s.shared.current process = some x) :
    ∃ y, t.shared.current process = some y ∧ x.revision ≤ y.revision := by
  obtain ⟨call', hstep, -, -⟩ := Process.step_cases hstep
  have hown := h.calls i
  have hgrown : ∀ more, ((s.shared.cells process).bind fun ptr => (s.shared.heap ++ more)[ptr]?) =
      some x := by
    intro more
    obtain ⟨ptr, hcell, hptr⟩ := Option.bind_eq_some_iff.mp hx
    rw [hcell]
    exact getElem?_append_of_some hptr
  generalize hshared : t.shared = w'
  rw [hshared] at hstep
  cases providerCalls_effect hstep with
  | started | moved => exact ⟨x, hx, le_rfl⟩
  | published why settings => exact ⟨x, hgrown [settings], le_rfl⟩
  | wrote input before now => exact ⟨x, hgrown [_], le_rfl⟩
  | swapped ptr settings next hphase =>
    rw [hphase] at hown
    by_cases hprocess : process = (s.locals i).process
    · subst hprocess
      obtain ⟨q, hcell, hq⟩ := Option.bind_eq_some_iff.mp hx
      obtain ⟨current, hcurrent, hlt⟩ := hown.2.2 q hcell
      obtain rfl := Option.some.inj (hq.symm.trans hcurrent)
      refine ⟨settings, ?_, hlt.le⟩
      show (Function.update s.shared.cells _ (some ptr) _).bind _ = _
      rw [Function.update_self]
      exact hown.1
    · refine ⟨x, ?_, le_rfl⟩
      show (Function.update s.shared.cells _ (some ptr) process).bind _ = _
      rw [Function.update_of_ne hprocess]
      exact hx

/-- What a step of process `i` does to the row, and to the write of its call. -/
def OneWrite (s t : Pool ProviderWorld ProviderCall) (i : ℕ) (a : ProviderAction) : Prop :=
  t.shared.row = s.shared.row ∧ ((t.locals i).wrote = (s.locals i).wrote ∨
      ∃ process request, a = .start process request) ∨
    ∃ before after, s.shared.row = some before ∧ t.shared.row = some after ∧
      after.revision = before.revision + 1 ∧ (s.locals i).wrote = none ∧
      (t.locals i).wrote = some (before, after)

theorem Register.oneWrite {s t : Pool ProviderWorld ProviderCall} {i : ℕ} {a : ProviderAction}
    (h : Register u vs s) (hstep : (providerCalls u).machine.step s (i, a) = some t) :
    OneWrite s t i a := by
  obtain ⟨call', hstep, hi, -⟩ := Process.step_cases hstep
  have hown := h.calls i
  generalize hshared : t.shared = w'
  rw [hshared] at hstep
  unfold OneWrite
  rw [hshared, hi]
  cases providerCalls_effect hstep with
  | started process request => exact .inl ⟨rfl, .inr ⟨process, request, rfl⟩⟩
  | moved | published | swapped => exact .inl ⟨rfl, .inl rfl⟩
  | wrote input before now hphase hrow =>
    exact .inr ⟨before, _, hrow, rfl, rfl, (saved_write now hown hphase h.normal (h.past_eq hrow)).2.1, rfl⟩

/-! ## Runs -/

/-- No call has begun, nothing is published, and the row has been normalized. -/
structure SettingsInitial (u : Unicode) (s : Pool ProviderWorld ProviderCall) : Prop where
  calls : ∀ i, s.locals i = {}
  heap : s.shared.heap = []
  cells : ∀ process, s.shared.cells process = none
  normal : ∀ row, s.shared.row = some row → NormalSettings u row.toRuntimeSettingsInput

theorem register_init {s : Pool ProviderWorld ProviderCall} (h : SettingsInitial u s) :
    Register u [s] s := by
  have hrow : ∀ x, Committed [s] x → s.shared.row = some x := by
    rintro x ⟨v, hv, hx⟩
    rwa [List.mem_singleton.mp hv] at hx
  refine ⟨fun row hsome => ⟨s, List.mem_singleton_self s, hsome⟩,
    fun x hx => h.normal x (hrow x hx), fun x hx => ⟨x, hrow x hx, le_rfl, fun _ => rfl⟩, ?_, ?_, ?_⟩
  · rw [h.heap]
    simp
  · intro process ptr hcell
    rw [h.cells] at hcell
    exact absurd hcell (by simp)
  · intro i
    rw [h.calls i]
    rfl

/-- The runtime settings are one versioned register.  In every run: a step writes the row
at most once, to the next revision, and so for a call that has not written before; a call
that fails has not written; a patch that succeeds has written the row with the revision it
named, has merged its changes into it, and has left the fields it does not supply; and what a process
has published is a committed row, and is replaced by a newer one only. -/
theorem settings_register {init s : Pool ProviderWorld ProviderCall}
    {as : List (ℕ × ProviderAction)} (hinit : SettingsInitial u init)
    (hrun : (providerCalls u).machine.run init as = some s) :
    (∀ i a t, (providerCalls u).machine.step s (i, a) = some t →
      OneWrite s t i a ∧
      ∀ process x, s.shared.current process = some x →
        ∃ y, t.shared.current process = some y ∧ x.revision ≤ y.revision) ∧
    (∀ i e, (s.locals i).phase = .done (.failed e) → (s.locals i).wrote = none) ∧
    (∀ i p settings, (s.locals i).request = .patch p →
      (s.locals i).phase = .done (.saved settings) →
      ∃ before, (s.locals i).wrote = some (before, settings) ∧
        Saved u before settings (.patch p)) ∧
    ∀ process x, s.shared.current process = some x →
      Committed ((providerCalls u).machine.visited init as) x := by
  have hregister : Register u ((providerCalls u).machine.visited init as) s := by
    refine Machine.run_history _ (I := fun _ vs s => Register u vs s) (C := fun _ _ => True)
      (fun _ _ _ _ _ _ h _ hstep => h.step hstep) (register_init hinit) ?_ hrun
    exact Machine.along_of_mem _ (C := fun _ => True) (fun _ _ => trivial) init
  refine ⟨fun i a t hstep => ⟨hregister.oneWrite hstep, fun process x hx =>
    hregister.publishes hstep hx⟩, fun i e hdone => ?_, fun i p settings hrequest hdone => ?_,
    fun process x hx => ?_⟩
  · have hheld := hregister.calls i
    rw [hdone] at hheld
    exact hheld
  · have hheld := hregister.calls i
    rw [hdone] at hheld
    obtain ⟨before, hwrote, hsaved⟩ := hheld
    rw [hrequest] at hsaved
    exact ⟨before, hwrote, hsaved⟩
  · obtain ⟨ptr, -, hptr⟩ := Option.bind_eq_some_iff.mp hx
    exact hregister.heap x (List.mem_of_getElem? hptr)

end

/-! ## A patch of one setting -/

def firstSettings : RuntimeSettings where
  aliasMode := lit "random"
  healthCheckIntervalSeconds := 3600
  revision := 1

def firstPool : Pool ProviderWorld ProviderCall where
  shared.row := some firstSettings
  locals _ := {}

theorem firstPool_initial : SettingsInitial .ascii firstPool where
  calls _ := rfl
  heap := rfl
  cells _ := rfl
  normal row hrow := by
    obtain rfl := Option.some.inj hrow
    rfl

/-- Counts bots, from revision 1 on. -/
def countBotsPatch : RuntimeSettingsPatch where
  revision := 1
  changes.entries := [(lit "count_bots", .bool true)]
  changes.sorted := by simp

/-- The patch from its start to its end: a read, a publication, a write, a publication. -/
def patchSteps : List (ℕ × ProviderAction) :=
  (0, .start 7 (.patch countBotsPatch)) :: List.replicate 6 (0, .next 0)

theorem settings_register_patch :
    ∃ s, (providerCalls .ascii).machine.run firstPool patchSteps = some s ∧
      (s.locals 0).request = .patch countBotsPatch ∧
      ∃ settings, (s.locals 0).phase = .done (.saved settings) ∧
        ∃ before, (s.locals 0).wrote = some (before, settings) ∧
          Saved .ascii before settings (.patch countBotsPatch) := by
  have hdone : ((providerCalls .ascii).machine.run firstPool patchSteps).map
      (fun s => ((s.locals 0).request, (s.locals 0).phase)) = some (.patch countBotsPatch,
        .done (.saved { firstSettings with countBots := true, revision := 2 })) := by rfl
  obtain ⟨s, hrun, hlocal⟩ := Option.map_eq_some_iff.mp hdone
  obtain ⟨hrequest, hphase⟩ := Prod.mk.inj hlocal
  exact ⟨s, hrun, hrequest, _, hphase,
    (settings_register firstPool_initial hrun).2.2.1 0 countBotsPatch _ hrequest hphase⟩

end Purels.Properties
