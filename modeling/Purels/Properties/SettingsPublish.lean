import Purels.Lib.Progress
import Purels.Properties.SettingsRegister

/-!
# The publication loop ends

`publish` loads the pointer of its process and swaps its own snapshot in, again and again while
other calls get in first.  Each of them publishes something newer, so the loop is left after a
number of steps that the revisions bound, whatever the other calls do.

* `publishing`, `gap` and `attempts`: how far a call in the loop is from its end.
* `Publication`: the invariant; `attempts_step`, one step of any call.
* `publish_ends`, the run theorem.
-/

namespace Purels.Properties

open Go Store Config Lib

/-- The settings that a call in the loop of `publish` is to publish. -/
def publishing : ProviderPhase → Option RuntimeSettings
  | .load _ settings _ => some settings
  | .swap _ settings _ _ => some settings
  | _ => none

/-- How many revisions lie between a published snapshot and the settings; `base` is a revision
that no snapshot is below. -/
def gap (base : Int) (settings : RuntimeSettings) : Option RuntimeSettings → ℕ
  | none => (settings.revision - base + 1).toNat
  | some x => (settings.revision - x.revision).toNat

/-- The steps that a call in the loop may still have to take before it leaves. -/
def attempts (base : Int) (w : ProviderWorld) (call : ProviderCall) : ℕ :=
  match call.phase with
  | .load _ settings _ => 2 * gap base settings (w.current call.process)
  | .swap _ settings loaded _ => 2 * gap base settings (loaded.bind fun ptr => w.heap[ptr]?) - 1
  | _ => 0

section

variable {u : Unicode} {base : Int} {settings : RuntimeSettings} {w w' : ProviderWorld}
  {call call' : ProviderCall} {vs : List (Pool ProviderWorld ProviderCall)}
  {s t : Pool ProviderWorld ProviderCall}

/-! ## Distances -/

/-- Something newer is closer. -/
theorem gap_newer {old : Option RuntimeSettings} {new : RuntimeSettings}
    (hold : ∀ x, old = some x → x.revision ≤ new.revision) (hbase : base ≤ new.revision) :
    gap base settings (some new) ≤ gap base settings old := by
  cases old with
  | none =>
    show (settings.revision - new.revision).toNat ≤ (settings.revision - base + 1).toNat
    omega
  | some x =>
    have hle := hold x rfl
    show (settings.revision - new.revision).toNat ≤ (settings.revision - x.revision).toNat
    omega

theorem gap_lt {old : Option RuntimeSettings} {new : RuntimeSettings}
    (hold : ∀ x, old = some x → x.revision < new.revision ∧ x.revision < settings.revision)
    (hbase : base ≤ new.revision) (hsettings : base ≤ settings.revision) :
    gap base settings (some new) < gap base settings old := by
  cases old with
  | none =>
    show (settings.revision - new.revision).toNat < (settings.revision - base + 1).toNat
    omega
  | some x =>
    obtain ⟨hnew, hlt⟩ := hold x rfl
    show (settings.revision - new.revision).toNat < (settings.revision - x.revision).toNat
    omega

theorem gap_pos {old : Option RuntimeSettings}
    (hold : ∀ x, old = some x → x.revision < settings.revision)
    (hsettings : base ≤ settings.revision) :
    0 < gap base settings old := by
  cases old with
  | none =>
    show 0 < (settings.revision - base + 1).toNat
    omega
  | some x =>
    have hlt := hold x rfl
    show 0 < (settings.revision - x.revision).toNat
    omega

/-! ## The pointer -/

/-- What a step does to the pointer of a process: it stays with its snapshot, or moves to a newer
one. -/
theorem Register.pointer {i : ℕ} {a : ProviderAction} (h : Register u vs s)
    (hstep : (providerCalls u).machine.step s (i, a) = some t) (process : ℕ) :
    (t.shared.cells process = s.shared.cells process ∧
        t.shared.current process = s.shared.current process) ∨
      ∃ y ∈ t.shared.heap, t.shared.current process = some y ∧
        ∀ x, s.shared.current process = some x → x.revision < y.revision := by
  obtain ⟨call', hstep, -, -⟩ := Process.step_cases hstep
  have hown := h.calls i
  have hgrown : ∀ more, ((s.shared.cells process).bind fun ptr => (s.shared.heap ++ more)[ptr]?) =
      s.shared.current process := by
    intro more
    unfold ProviderWorld.current
    cases hcell : s.shared.cells process with
    | none => rfl
    | some ptr => exact List.getElem?_append_left (h.cells process ptr hcell)
  generalize hshared : t.shared = w' at hstep
  cases providerCalls_effect hstep with
  | started | moved => exact Or.inl ⟨rfl, rfl⟩
  | published why settings => exact Or.inl ⟨rfl, hgrown [settings]⟩
  | wrote input before now => exact Or.inl ⟨rfl, hgrown [_]⟩
  | swapped ptr settings next hphase =>
    rw [hphase] at hown
    by_cases hprocess : process = (s.locals i).process
    · subst hprocess
      refine Or.inr ⟨settings, List.mem_of_getElem? hown.1, ?_, fun x hx => ?_⟩
      · show (Function.update s.shared.cells _ (some ptr) _).bind _ = _
        rw [Function.update_self]
        exact hown.1
      · obtain ⟨q, hcell, hq⟩ := Option.bind_eq_some_iff.mp hx
        obtain ⟨current, hcurrent, hlt⟩ := hown.2.2 q hcell
        rw [Option.some.inj (hq.symm.trans hcurrent)]
        exact hlt
    · refine Or.inl ⟨Function.update_of_ne hprocess .., ?_⟩
      show (Function.update s.shared.cells _ (some ptr) process).bind _ = _
      rw [Function.update_of_ne hprocess]
      rfl

/-! ## The invariant -/

/-- The row and the snapshots are of the revision `base` or later. -/
structure Floor (base : Int) (w : ProviderWorld) : Prop where
  row : ∀ x, w.row = some x → base ≤ x.revision
  heap : ∀ x ∈ w.heap, base ≤ x.revision

/-- A call about to swap has the pointer it loaded, or one newer than that is published. -/
def Behind (base : Int) (w : ProviderWorld) (call : ProviderCall) : Prop :=
  ∀ ptr settings loaded next, call.phase = .swap ptr settings loaded next →
    w.cells call.process = loaded ∨
      gap base settings (w.current call.process) <
        gap base settings (loaded.bind fun q => w.heap[q]?)

structure Publication (u : Unicode) (base : Int) (s : Pool ProviderWorld ProviderCall) : Prop where
  register : ∃ vs, Register u vs s
  floor : Floor base s.shared
  behind : ∀ i, Behind base s.shared (s.locals i)

theorem Floor.step {a : ProviderAction} (h : Floor base w)
    (heffect : ProviderEffect u w call a w' call') : Floor base w' := by
  cases heffect with
  | started | moved => exact h
  | swapped => exact ⟨h.row, h.heap⟩
  | published why settings hphase hrow =>
    refine ⟨h.row, fun x hx => ?_⟩
    rcases List.mem_append.mp hx with hold | hnew
    · exact h.heap x hold
    · rw [List.mem_singleton.mp hnew]
      exact h.row settings hrow
  | wrote input before now hphase hrow =>
    have hbefore := h.row before hrow
    have hnext : (nextSettings input now before).revision = before.revision + 1 := rfl
    refine ⟨fun x hx => ?_, fun x hx => ?_⟩
    · rw [← Option.some.inj hx]
      omega
    · rcases List.mem_append.mp hx with hold | hnew
      · exact h.heap x hold
      · rw [List.mem_singleton.mp hnew]
        omega

/-- The snapshots of a step are there after it. -/
theorem heap_grows {a : ProviderAction} (heffect : ProviderEffect u w call a w' call') :
    ∃ more, w'.heap = w.heap ++ more := by
  cases heffect with
  | started | moved | swapped => exact ⟨[], (List.append_nil _).symm⟩
  | published why settings => exact ⟨[settings], rfl⟩
  | wrote input before now => exact ⟨[_], rfl⟩

/-- What a call has loaded is where it was. -/
theorem loaded_lookup {heap more : List RuntimeSettings} {loaded : Option ℕ}
    (h : ∀ q, loaded = some q → ∃ x, heap[q]? = some x ∧ x.revision < settings.revision) :
    (loaded.bind fun q => (heap ++ more)[q]?) = loaded.bind fun q => heap[q]? := by
  cases loaded with
  | none => rfl
  | some q =>
    obtain ⟨x, hx, -⟩ := h q rfl
    exact (getElem?_append_of_some hx).trans hx.symm

/-- What it has loaded is older than what it publishes. -/
theorem loaded_older {heap : List RuntimeSettings} {loaded : Option ℕ}
    (h : ∀ q, loaded = some q → ∃ x, heap[q]? = some x ∧ x.revision < settings.revision) :
    ∀ x, (loaded.bind fun q => heap[q]?) = some x → x.revision < settings.revision := by
  intro x hx
  obtain ⟨q, hq, hlookup⟩ := Option.bind_eq_some_iff.mp hx
  obtain ⟨y, hy, hlt⟩ := h q hq
  rw [Option.some.inj (hlookup.symm.trans hy)]
  exact hlt

/-! ## Phases outside the loop -/

theorem publishing_mergePhase (p : RuntimeSettingsPatch) (current : RuntimeSettings) :
    publishing (mergePhase u p current) = none := by
  unfold mergePhase
  split
  · rfl
  split
  · rfl
  split
  · rfl
  · rfl

theorem publishing_next (next : PublishThen) (current : RuntimeSettings) :
    publishing (next.phase u current) = none := by
  cases next with
  | finish result => rfl
  | merge p => exact publishing_mergePhase p current

theorem publishing_request (request : ProviderRequest) :
    publishing (request.phase u) = none := by
  cases request with
  | refresh => rfl
  | update input =>
    unfold ProviderRequest.phase
    dsimp only
    cases NormalizeRuntimeSettings u input with
    | error e => rfl
    | ok normalized => rfl
  | patch p =>
    unfold ProviderRequest.phase
    dsimp only
    cases p.Apply u {} with
    | error e => rfl
    | ok input => rfl

/-- A call that is about to swap has just loaded. -/
theorem swap_of_effect {a : ProviderAction} (heffect : ProviderEffect u w call a w' call')
    {ptr : ℕ} {loaded : Option ℕ} {next : PublishThen}
    (hphase : call'.phase = .swap ptr settings loaded next) :
    w' = w ∧ call'.process = call.process ∧ loaded = w.cells call.process := by
  have hout : ∀ phase : ProviderPhase, publishing phase = none →
      phase ≠ .swap ptr settings loaded next := by
    rintro phase hnone rfl
    cases hnone
  cases heffect with
  | started process request => exact absurd hphase (hout _ (publishing_request request))
  | published why settings => cases hphase
  | swapped ptr settings next => exact absurd hphase (hout _ (publishing_next next settings))
  | wrote input before now => cases hphase
  | moved hmoves =>
    dsimp only at hphase
    generalize hbefore : call.phase = before at hmoves
    cases hmoves with
    | readFailed why e => cases why <;> cases hphase
    | settled ptr settings next => exact absurd hphase (hout _ (publishing_next next settings))
    | loaded ptr settings next hnewer =>
      obtain ⟨rfl, rfl, rfl, rfl⟩ := ProviderPhase.swap.inj hphase
      exact ⟨rfl, rfl, rfl⟩
    | again => cases hphase
    | updateFailed => cases hphase
    | swapFailed input p seen e =>
      unfold writeFailed at hphase
      dsimp only at hphase
      split at hphase
      · cases hphase
      · cases hphase

/-! ## Steps -/

/-- Every step keeps the invariant. -/
theorem Publication.step {i : ℕ} {a : ProviderAction} (h : Publication u base s)
    (hstep : (providerCalls u).machine.step s (i, a) = some t) : Publication u base t := by
  obtain ⟨vs, hregister⟩ := h.register
  obtain ⟨call', hcall, hi, hothers⟩ := Process.step_cases hstep
  have heffect := providerCalls_effect hcall
  obtain ⟨more, hmore⟩ := heap_grows heffect
  have hfloor := h.floor.step heffect
  refine ⟨⟨vs ++ [t], hregister.step hstep⟩, hfloor, fun j => ?_⟩
  intro ptr settings loaded next hphase
  by_cases hji : j = i
  · subst hji
    rw [hi] at hphase ⊢
    obtain ⟨hworld, hprocess, hloaded⟩ := swap_of_effect heffect hphase
    rw [hworld, hprocess]
    exact Or.inl hloaded.symm
  · rw [hothers j hji] at hphase ⊢
    have hheld := hregister.calls j
    rw [hphase] at hheld
    obtain ⟨hown, -, holder⟩ := hheld
    have hsettings : base ≤ settings.revision := h.floor.heap settings (List.mem_of_getElem? hown)
    rw [hmore, loaded_lookup holder]
    rcases hregister.pointer hstep (s.locals j).process with
      ⟨hcells, hcurrent⟩ | ⟨y, hy, hcurrent, hnewer⟩
    · rw [hcells, hcurrent]
      exact h.behind j ptr settings loaded next hphase
    · refine Or.inr ?_
      rw [hcurrent]
      rcases h.behind j ptr settings loaded next hphase with hsame | hbehind
      · refine gap_lt (fun x hx => ⟨hnewer x ?_, loaded_older holder x hx⟩) (hfloor.heap y hy)
          hsettings
        rw [ProviderWorld.current, hsame]
        exact hx
      · refine lt_of_le_of_lt (gap_newer (fun x hx => ?_) (hfloor.heap y hy)) hbehind
        exact (hnewer x hx).le

/-- A step of the call in the loop: it leaves once something as new is published, or it has less
to do. -/
theorem publish_own {a : ProviderAction}
    (hstep : (providerCalls u).step w call a = some (w', call'))
    (hbehind : Behind base w call) (hfloor : base ≤ settings.revision)
    (hown : ∀ ptr loaded next, call.phase = .swap ptr settings loaded next →
      w.heap[ptr]? = some settings)
    (hpublishing : publishing call.phase = some settings) :
    (publishing call'.phase = some settings ∧ attempts base w' call' + 1 ≤ attempts base w call) ∨
      (publishing call'.phase = none ∧
        ∃ x, w'.current call.process = some x ∧ settings.revision ≤ x.revision) := by
  cases hphase : call.phase with
  | load ptr new next =>
    obtain rfl : new = settings := by
      rw [hphase] at hpublishing
      exact Option.some.inj hpublishing
    cases a with
    | start process request => simp [providerCalls, ProviderPhase.free, hphase] at hstep
    | fail e => simp [providerCalls, failStep, hphase] at hstep
    | next now =>
      simp only [providerCalls, providerStep, hphase] at hstep
      split_ifs at hstep with hnew
      · obtain ⟨rfl, rfl⟩ := Prod.mk.inj (Option.some.inj hstep)
        refine Or.inr ⟨publishing_next next new, ?_⟩
        cases hx : w.current call.process with
        | none => simp [hx] at hnew
        | some x => exact ⟨x, rfl, by simpa [hx] using hnew⟩
      · obtain ⟨rfl, rfl⟩ := Prod.mk.inj (Option.some.inj hstep)
        refine Or.inl ⟨rfl, ?_⟩
        have hpos : 0 < gap base new (w.current call.process) := by
          refine gap_pos (fun x hx => ?_) hfloor
          simpa [hx] using hnew
        simp only [attempts, hphase]
        show 2 * gap base new (w.current call.process) - 1 + 1 ≤ _
        omega
  | swap ptr new loaded next =>
    obtain rfl : new = settings := by
      rw [hphase] at hpublishing
      exact Option.some.inj hpublishing
    cases a with
    | start process request => simp [providerCalls, ProviderPhase.free, hphase] at hstep
    | fail e => simp [providerCalls, failStep, hphase] at hstep
    | next now =>
      simp only [providerCalls, providerStep, hphase] at hstep
      split_ifs at hstep with hsame
      · obtain ⟨rfl, rfl⟩ := Prod.mk.inj (Option.some.inj hstep)
        refine Or.inr ⟨publishing_next next new, new, ?_, le_rfl⟩
        show (Function.update w.cells _ (some ptr) _).bind _ = _
        rw [Function.update_self]
        exact hown ptr loaded next hphase
      · obtain ⟨rfl, rfl⟩ := Prod.mk.inj (Option.some.inj hstep)
        refine Or.inl ⟨rfl, ?_⟩
        have hlt := (hbehind ptr new loaded next hphase).resolve_left hsame
        simp only [attempts, hphase]
        omega
  | _ =>
    rw [hphase] at hpublishing
    cases hpublishing

/-- The same in a run. -/
theorem Publication.own {i : ℕ} {a : ProviderAction} (h : Publication u base s)
    (hstep : (providerCalls u).step s.shared (s.locals i) a = some (w', call'))
    (hpublishing : publishing (s.locals i).phase = some settings) :
    (publishing call'.phase = some settings ∧
        attempts base w' call' + 1 ≤ attempts base s.shared (s.locals i)) ∨
      (publishing call'.phase = none ∧
        ∃ x, w'.current (s.locals i).process = some x ∧ settings.revision ≤ x.revision) := by
  obtain ⟨vs, hregister⟩ := h.register
  have hheld := hregister.calls i
  have hptr : ∃ ptr : ℕ, s.shared.heap[ptr]? = some settings := by
    cases hphase : (s.locals i).phase with
    | load ptr new next =>
      rw [hphase] at hheld hpublishing
      exact ⟨ptr, Option.some.inj hpublishing ▸ hheld.1⟩
    | swap ptr new loaded next =>
      rw [hphase] at hheld hpublishing
      exact ⟨ptr, Option.some.inj hpublishing ▸ hheld.1⟩
    | _ =>
      rw [hphase] at hpublishing
      cases hpublishing
  obtain ⟨ptr, hptr⟩ := hptr
  refine publish_own hstep (h.behind i) (h.floor.heap settings (List.mem_of_getElem? hptr)) ?_
    hpublishing
  intro q loaded next hphase
  rw [hphase] at hheld
  exact hheld.1

/-- A step of another call does not take a call in the loop further from its end. -/
theorem publish_other {i j : ℕ} {a : ProviderAction} (h : Publication u base s)
    (hstep : (providerCalls u).machine.step s (i, a) = some t) :
    attempts base t.shared (s.locals j) ≤ attempts base s.shared (s.locals j) := by
  obtain ⟨vs, hregister⟩ := h.register
  obtain ⟨call', hcall, -, -⟩ := Process.step_cases hstep
  obtain ⟨more, hmore⟩ := heap_grows (providerCalls_effect hcall)
  have hfloor := h.floor.step (providerCalls_effect hcall)
  have hheld := hregister.calls j
  unfold attempts
  cases hphase : (s.locals j).phase with
  | load ptr settings next =>
    dsimp only
    rcases hregister.pointer hstep (s.locals j).process with
      ⟨-, hcurrent⟩ | ⟨y, hy, hcurrent, hnewer⟩
    · rw [hcurrent]
    · rw [hcurrent]
      have hle : gap base settings (some y) ≤
          gap base settings (s.shared.current (s.locals j).process) :=
        gap_newer (fun x hx => (hnewer x hx).le) (hfloor.heap y hy)
      omega
  | swap ptr settings loaded next =>
    rw [hphase] at hheld
    dsimp only
    rw [hmore, loaded_lookup hheld.2.2]
  | _ => exact le_rfl

/-! ## Runs -/

theorem publication_init {first : RuntimeSettings} (hinit : SettingsInitial u s)
    (hfirst : s.shared.row = some first) : Publication u first.revision s where
  register := ⟨[s], register_init hinit⟩
  floor := by
    refine ⟨fun x hx => ?_, fun x hx => ?_⟩
    · rw [Option.some.inj (hfirst.symm.trans hx)]
    · rw [hinit.heap] at hx
      cases hx
  behind := by
    intro i ptr settings loaded next hphase
    rw [hinit.calls i] at hphase
    cases hphase

/-- The loop of `publish` is left after a number of steps of its own call, whatever the calls of
any process do in between: at most twice as many as there are revisions between what the
process has published and what is to be published.  When it is left, the process has published
something as new. -/
theorem publish_ends {init s : Pool ProviderWorld ProviderCall} {as : List (ℕ × ProviderAction)}
    {first settings : RuntimeSettings} {i ptr : ℕ} {next : PublishThen}
    (hinit : SettingsInitial u init) (hfirst : init.shared.row = some first)
    (hrun : (providerCalls u).machine.run init as = some s)
    (hload : (s.locals i).phase = .load ptr settings next) {bs : List (ℕ × ProviderAction)}
    {t : Pool ProviderWorld ProviderCall} (hmore : (providerCalls u).machine.run s bs = some t)
    (hloop : ∀ v ∈ (providerCalls u).machine.visited s bs,
      publishing (v.locals i).phase = some settings) :
    bs.countP (fun a => a.1 = i) ≤
        2 * gap first.revision settings (s.shared.current (s.locals i).process) ∧
      ∀ a v, (providerCalls u).machine.step t (i, a) = some v →
        publishing (v.locals i).phase ≠ some settings →
        ∃ x, v.shared.current (t.locals i).process = some x ∧ settings.revision ≤ x.revision := by
  have hkept : ∀ v a v', Publication u first.revision v →
      (providerCalls u).machine.step v a = some v' → Publication u first.revision v' :=
    fun v a v' h hstep => h.step (i := a.1) (a := a.2) hstep
  have hpublication : Publication u first.revision s :=
    Machine.run_invariant _ hkept (publication_init hinit hfirst) hrun
  constructor
  · have hrank : ∀ v a v', Publication u first.revision v →
        publishing (v.locals i).phase = some settings →
        (providerCalls u).machine.step v a = some v' →
        publishing (v'.locals i).phase = some settings →
        attempts first.revision v'.shared (v'.locals i) + (if decide (a.1 = i) then 1 else 0) ≤
          attempts first.revision v.shared (v.locals i) := by
      rintro v ⟨j, a⟩ v' hv hpublishing hstep hstays
      obtain ⟨call', hcall, hj, hothers⟩ := Process.step_cases hstep
      by_cases hji : j = i
      · subst hji
        rw [if_pos (decide_eq_true rfl)]
        rw [hj] at hstays ⊢
        rcases hv.own hcall hpublishing with ⟨-, hless⟩ | ⟨hleft, -⟩
        · exact hless
        · rw [hleft] at hstays
          cases hstays
      · rw [if_neg fun heq => hji (of_decide_eq_true heq), hothers i fun heq => hji heq.symm]
        exact publish_other hv hstep
    have hcount := Machine.run_counted _ hkept hrank hpublication hloop hmore
    have hattempts : attempts first.revision s.shared (s.locals i) =
        2 * gap first.revision settings (s.shared.current (s.locals i).process) := by
      simp only [attempts, hload]
    omega
  · intro a v hstep hleft
    obtain ⟨call', hcall, hi, -⟩ := Process.step_cases hstep
    have hpublishing := hloop t (Machine.mem_visited_of_run _ hmore)
    have hlast := Machine.run_invariant _ hkept hpublication hmore
    rcases hlast.own hcall hpublishing with ⟨hstays, -⟩ | ⟨-, hx⟩
    · rw [hi] at hleft
      exact absurd hstays hleft
    · exact hx

end

/-! ## Two refreshes of one process -/

/-- Both have read the row. -/
def refreshSteps : List (ℕ × ProviderAction) :=
  [(0, .start 7 .refresh), (1, .start 7 .refresh), (0, .next 0), (1, .next 0)]

def refreshedPool : Pool ProviderWorld ProviderCall :=
  ((providerCalls .ascii).machine.run firstPool refreshSteps).getD firstPool

/-- The second publishes between the load and the swap of the first. -/
def overtakenSteps : List (ℕ × ProviderAction) :=
  [(0, .next 0), (1, .next 0), (1, .next 0), (0, .next 0)]

def overtakenPool : Pool ProviderWorld ProviderCall :=
  ((providerCalls .ascii).machine.run refreshedPool overtakenSteps).getD firstPool

/-- The first is back at its load after as many steps as it may take. -/
theorem publish_ends_overtaken :
    overtakenSteps.countP (fun a => a.1 = 0) = 2 ∧
      overtakenSteps.countP (fun a => a.1 = 0) ≤
        2 * gap 1 firstSettings (refreshedPool.shared.current 7) ∧
      2 * gap 1 firstSettings (refreshedPool.shared.current 7) = 2 := by
  have hloop : ∀ v ∈ (providerCalls .ascii).machine.visited refreshedPool overtakenSteps,
      publishing (v.locals 0).phase = some firstSettings := by decide
  have hread : (providerCalls .ascii).machine.run firstPool refreshSteps = some refreshedPool := rfl
  have hovertaken : (providerCalls .ascii).machine.run refreshedPool overtakenSteps =
    some overtakenPool := rfl
  exact ⟨rfl, (publish_ends (i := 0) firstPool_initial rfl hread rfl hovertaken hloop).1, rfl⟩

end Purels.Properties
