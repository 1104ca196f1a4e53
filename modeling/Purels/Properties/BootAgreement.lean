import Purels.Config.Boot
import Purels.Properties.SettingsRegister

/-!
# Processes that boot agree

Any number of processes boot, each with its own defaults, while the providers that are up
serve.  Snapshots of one revision are one snapshot, none was read before the switch was
resolved, and the settings that were there before a boot survive it.

* `FirstSettings`: what the settings of the first revision can be.
* `Booting`: the invariant of the shared state, and `Entered`, of a call.
* `BootKept`: one step; `boots_agree`: the run theorem.
-/

namespace Purels.Properties

open Go Store Config Lib

/-! ## The invariant -/

/-- The defaults that some boot of the schedule comes with. -/
def BootsWith (u : Unicode) (as : List (ℕ × BootAction)) (defaults : RuntimeSettingsInput) : Prop :=
  ∃ i process raw, (i, BootAction.boot process raw) ∈ as ∧
    NormalizeRuntimeSettings u raw = .ok defaults

/-- Settings of the first revision: those of the row, with a switch adopted if it was NULL, or
seeded by a boot when there was no row.  Later revisions are those of saves. -/
def FirstSettings (defaults : RuntimeSettingsInput → Prop) (row : Option RuntimeSettings)
    (unresolved : Bool) (x : RuntimeSettings) : Prop :=
  match row with
  | some settings =>
    settings.revision < x.revision ∨
      if unresolved then
        ∃ input, defaults input ∧ x = { settings with totpEnabled := input.totpEnabled }
      else x = settings
  | none => 1 < x.revision ∨ ∃ input now, defaults input ∧ x = seededSettings input now

/-- What the boots and the calls keep, from the row and its switch at the start. -/
structure Booting (defaults : RuntimeSettingsInput → Prop) (row : Option RuntimeSettings)
    (unresolved : Bool) (w : BootWorld) : Prop where
  newest : ∀ x ∈ w.provider.heap, ∃ current, w.provider.row = some current ∧
    x.revision ≤ current.revision ∧ (x.revision = current.revision → x = current)
  agree : ∀ x ∈ w.provider.heap, ∀ y ∈ w.provider.heap, x.revision = y.revision → x = y
  unread : w.unresolved → w.provider.heap = [] ∧ w.provider.row = row ∧ unresolved = true
  first : ¬ w.unresolved → ∀ current, w.provider.row = some current →
    FirstSettings defaults row unresolved current
  read : ∀ x ∈ w.provider.heap, FirstSettings defaults row unresolved x
  kept : w.provider.row = none → row = none
  up : ∀ process, w.booted process → w.provider.row.isSome ∧ ¬ w.unresolved

/-- What a call may rely on: its defaults are those of a boot, and once it reads there is a row
with a switch. -/
def Entered (defaults : RuntimeSettingsInput → Prop) (w : BootWorld) : BootCall → Prop
  | .ensure _ input => defaults input
  | .adopt _ input => defaults input ∧ w.provider.row.isSome
  | .first _ => w.provider.row.isSome ∧ ¬ w.unresolved
  | .serving call => call.phase.free = false → w.provider.row.isSome ∧ ¬ w.unresolved
  | _ => True

/-- A row and a resolved switch stay. -/
structure Settles (w w' : BootWorld) : Prop where
  row : w.provider.row.isSome → w'.provider.row.isSome
  resolved : ¬ w.unresolved → ¬ w'.unresolved

theorem Settles.refl (w : BootWorld) : Settles w w := ⟨id, id⟩

section

variable {u : Unicode} {defaults : RuntimeSettingsInput → Prop} {row : Option RuntimeSettings}
  {unresolved : Bool} {w w' : BootWorld} {call call' : BootCall}

/-- What a call relies on stays. -/
theorem Entered.mono (h : Entered defaults w call) (hsettles : Settles w w') :
    Entered defaults w' call := by
  cases call with
  | idle => trivial
  | exited => trivial
  | ensure process input => exact h
  | adopt process input => exact ⟨h.1, hsettles.row h.2⟩
  | first call => exact ⟨hsettles.row h.1, hsettles.resolved h.2⟩
  | serving call => exact fun hphase => ⟨hsettles.row (h hphase).1, hsettles.resolved (h hphase).2⟩

/-! ## Settings of the first revision -/

theorem FirstSettings.seeded {input : RuntimeSettingsInput} {now : Instant}
    (h : defaults input) (hnone : row = none) :
    FirstSettings defaults row unresolved (seededSettings input now) := by
  subst hnone
  exact Or.inr ⟨input, now, h, rfl⟩

/-- A save is of a later revision. -/
theorem FirstSettings.next {current : RuntimeSettings} {input : RuntimeSettingsInput}
    {now : Instant} (h : FirstSettings defaults row unresolved current) :
    FirstSettings defaults row unresolved (nextSettings input now current) := by
  have hnext : (nextSettings input now current).revision = current.revision + 1 := rfl
  cases row with
  | none =>
    refine Or.inl ?_
    rcases h with hlater | ⟨other, time, -, rfl⟩
    · omega
    · rw [hnext]
      exact Int.lt_add_one_of_le le_rfl
  | some settings =>
    refine Or.inl ?_
    rcases h with hlater | hfirst
    · omega
    · have hrevision : current.revision = settings.revision := by
        split at hfirst
        · obtain ⟨other, -, rfl⟩ := hfirst
          rfl
        · rw [hfirst]
      omega

/-! ## Steps -/

/-- A step keeps the invariant, and gives the call and the others what they rely on. -/
structure BootKept (defaults : RuntimeSettingsInput → Prop) (row : Option RuntimeSettings)
    (unresolved : Bool) (w w' : BootWorld) (call' : BootCall) : Prop where
  booting : Booting defaults row unresolved w'
  entered : Entered defaults w' call'
  settles : Settles w w'

theorem BootKept.same (hbooting : Booting defaults row unresolved w)
    (hentered : Entered defaults w call') : BootKept defaults row unresolved w w call' :=
  ⟨hbooting, hentered, Settles.refl w⟩

/-- A snapshot of the row is taken. -/
theorem Booting.snapshot (h : Booting defaults row unresolved w) {current : RuntimeSettings}
    (hrow : w.provider.row = some current) (hresolved : ¬ w.unresolved) :
    Booting defaults row unresolved
      { w with provider := { w.provider with heap := w.provider.heap ++ [current] } } where
  newest := by
    intro x hx
    rcases List.mem_append.mp hx with hold | hnew
    · exact h.newest x hold
    · rw [List.mem_singleton.mp hnew]
      exact ⟨current, hrow, le_rfl, fun _ => rfl⟩
  agree := by
    have hsame : ∀ x ∈ w.provider.heap, x.revision = current.revision → x = current := by
      intro x hx heq
      obtain ⟨newest, hnewest, -, hequal⟩ := h.newest x hx
      obtain rfl : newest = current := Option.some.inj (hnewest.symm.trans hrow)
      exact hequal heq
    intro x hx y hy heq
    rcases List.mem_append.mp hx with hxold | hxnew
    · rcases List.mem_append.mp hy with hyold | hynew
      · exact h.agree x hxold y hyold heq
      · rw [List.mem_singleton.mp hynew] at heq ⊢
        exact hsame x hxold heq
    · rcases List.mem_append.mp hy with hyold | hynew
      · rw [List.mem_singleton.mp hxnew] at heq ⊢
        exact (hsame y hyold heq.symm).symm
      · rw [List.mem_singleton.mp hxnew, List.mem_singleton.mp hynew]
  unread := fun hunresolved => absurd hunresolved hresolved
  first := h.first
  read := by
    intro x hx
    rcases List.mem_append.mp hx with hold | hnew
    · exact h.read x hold
    · rw [List.mem_singleton.mp hnew]
      exact h.first hresolved current hrow
  kept := h.kept
  up := h.up

/-- A save writes a row of the next revision. -/
theorem Booting.saved (h : Booting defaults row unresolved w) {current : RuntimeSettings}
    (hrow : w.provider.row = some current) (hresolved : ¬ w.unresolved)
    (input : RuntimeSettingsInput) (now : Instant) :
    Booting defaults row unresolved
      { w with provider := { w.provider with row := some (nextSettings input now current) } } where
  newest := by
    intro x hx
    obtain ⟨newest, hnewest, hle, -⟩ := h.newest x hx
    obtain rfl : newest = current := Option.some.inj (hnewest.symm.trans hrow)
    have hnext : (nextSettings input now newest).revision = newest.revision + 1 := rfl
    refine ⟨_, rfl, by omega, fun heq => ?_⟩
    omega
  agree := h.agree
  unread := fun hunresolved => absurd hunresolved hresolved
  first := by
    intro _ other hother
    obtain rfl := Option.some.inj hother
    exact (h.first hresolved current hrow).next
  read := h.read
  kept := fun hnone => by cases hnone
  up := fun process hup => ⟨rfl, (h.up process hup).2⟩

/-- A step of a provider. -/
theorem Booting.served {provider : ProviderWorld} {call call' : ProviderCall} {now : Instant}
    (h : Booting defaults row unresolved w) (hready : w.provider.row.isSome ∧ ¬ w.unresolved)
    (heffect : ProviderEffect u w.provider call (.next now) provider call') :
    Booting defaults row unresolved (servedWorld w provider) ∧
      (servedWorld w provider).provider.row.isSome ∧ ¬ (servedWorld w provider).unresolved := by
  have hfalse : w.unresolved = false := Bool.not_eq_true _ ▸ hready.2
  have hworld : servedWorld w provider = { w with provider } := by
    unfold servedWorld
    rw [hfalse, Bool.false_and]
  rw [hworld]
  cases heffect with
  | moved hmoves => exact ⟨h, hready⟩
  | published why settings hphase hrow => exact ⟨h.snapshot hrow hready.2, hready⟩
  | swapped ptr settings next hphase =>
    refine ⟨?_, hready⟩
    exact ⟨h.newest, h.agree, h.unread, h.first, h.read, h.kept, h.up⟩
  | wrote input before now hphase hrow =>
    refine ⟨?_, rfl, hready.2⟩
    exact (h.saved hrow hready.2 input now).snapshot rfl hready.2

/-- The row is seeded, or was there. -/
theorem Booting.ensured (h : Booting defaults row unresolved w) (hnull : unresolved → row.isSome)
    {input : RuntimeSettingsInput} {now : Instant} {stored : Option RuntimeSettings}
    (hinput : defaults input)
    (hensure : EnsureRuntimeSettings input now w.provider.row = .ok stored) :
    Booting defaults row unresolved { w with provider := { w.provider with row := stored } } ∧
      stored.isSome := by
  unfold EnsureRuntimeSettings at hensure
  split at hensure
  · cases hensure
  · cases hrow : w.provider.row with
    | some settings =>
      rw [hrow] at hensure
      obtain rfl := Except.ok.inj hensure
      rw [← hrow]
      exact ⟨h, by rw [hrow]; rfl⟩
    | none =>
      rw [hrow] at hensure
      obtain rfl := Except.ok.inj hensure
      have hnone : row = none := h.kept hrow
      have hresolved : ¬ w.unresolved := by
        intro hunresolved
        have hsome := hnull (h.unread hunresolved).2.2
        rw [hnone] at hsome
        cases hsome
      have hheap : ∀ x, x ∉ w.provider.heap := by
        intro x hx
        obtain ⟨current, hcurrent, -⟩ := h.newest x hx
        rw [hrow] at hcurrent
        cases hcurrent
      refine ⟨?_, rfl⟩
      exact {
        newest := fun x hx => absurd hx (hheap x)
        agree := h.agree
        unread := fun hunresolved => absurd hunresolved hresolved
        first := by
          intro _ current hcurrent
          obtain rfl := Option.some.inj hcurrent
          exact .seeded hinput hnone
        read := h.read
        kept := fun hfalse => by cases hfalse
        up := fun process hup => ⟨rfl, (h.up process hup).2⟩ }

/-- The switch is adopted, or had been set. -/
theorem Booting.adopted (h : Booting defaults row unresolved w) {input : RuntimeSettingsInput}
    (hinput : defaults input) (hrow : w.provider.row.isSome) :
    Booting defaults row unresolved (AdoptTOTPDefault input.totpEnabled w) ∧
      (AdoptTOTPDefault input.totpEnabled w).provider.row.isSome ∧
      ¬ (AdoptTOTPDefault input.totpEnabled w).unresolved := by
  unfold AdoptTOTPDefault
  by_cases hunresolved : w.unresolved
  · rw [if_pos hunresolved]
    obtain ⟨hheap, hstart, hnull⟩ := h.unread hunresolved
    obtain ⟨settings, hsettings⟩ := Option.isSome_iff_exists.mp hrow
    have hnone : ∀ x, x ∉ w.provider.heap := by
      rw [hheap]
      exact fun x => List.not_mem_nil
    refine ⟨?_, ?_, Bool.false_ne_true⟩
    · exact {
        newest := fun x hx => absurd hx (hnone x)
        agree := h.agree
        unread := fun hfalse => absurd hfalse Bool.false_ne_true
        first := by
          intro _ current hcurrent
          dsimp only at hcurrent
          rw [hsettings, Option.map_some] at hcurrent
          rw [← hstart, hsettings, hnull, ← Option.some.inj hcurrent]
          exact Or.inr ⟨input, hinput, rfl⟩
        read := h.read
        kept := by
          intro hmissing
          dsimp only at hmissing
          rw [hsettings] at hmissing
          cases hmissing
        up := fun process hup => absurd hunresolved (h.up process hup).2 }
    · dsimp only
      rw [hsettings]
      rfl
  · rw [if_neg hunresolved]
    exact ⟨h, hrow, hunresolved⟩

/-- The first refresh goes on, or ends: what a process that is up may rely on holds. -/
theorem Booting.booted {served : BootWorld} {pending : ProviderCall}
    (h : Booting defaults row unresolved served) (heq : bootedCall served pending = (w', call'))
    (hsome : served.provider.row.isSome) (hresolved : ¬ served.unresolved) :
    Booting defaults row unresolved w' ∧ Entered defaults w' call' ∧
      w'.provider = served.provider ∧ w'.unresolved = served.unresolved := by
  unfold bootedCall at heq
  split at heq
  · obtain ⟨rfl, rfl⟩ := Prod.mk.inj heq
    refine ⟨?_, fun _ => ⟨hsome, hresolved⟩, rfl, rfl⟩
    exact ⟨h.newest, h.agree, h.unread, h.first, h.read, h.kept, fun _ _ => ⟨hsome, hresolved⟩⟩
  · obtain ⟨rfl, rfl⟩ := Prod.mk.inj heq
    exact ⟨h, trivial, rfl, rfl⟩
  · obtain ⟨rfl, rfl⟩ := Prod.mk.inj heq
    exact ⟨h, ⟨hsome, hresolved⟩, rfl, rfl⟩

/-- A call that takes a step was in progress. -/
theorem providerStep_busy {provider provider' : ProviderWorld} {pending pending' : ProviderCall}
    {now : Instant} (hstep : providerStep u now provider pending = some (provider', pending')) :
    pending.phase.free = false := by
  cases hphase : pending.phase with
  | idle | done => simp [providerStep, hphase] at hstep
  | _ => rfl

/-- Every step of a process. -/
theorem bootStep_kept {now : Instant} (hstep : bootStep u now w call = some (w', call'))
    (h : Booting defaults row unresolved w) (hentered : Entered defaults w call)
    (hnull : unresolved → row.isSome) :
    BootKept defaults row unresolved w w' call' := by
  cases call with
  | idle => cases hstep
  | exited => cases hstep
  | ensure process input =>
    rw [bootStep] at hstep
    split at hstep
    · obtain ⟨rfl, rfl⟩ := Prod.mk.inj (Option.some.inj hstep)
      exact .same h trivial
    · rename_i stored hensure
      obtain ⟨rfl, rfl⟩ := Prod.mk.inj (Option.some.inj hstep)
      obtain ⟨hbooting, hsome⟩ := h.ensured hnull hentered hensure
      exact ⟨hbooting, ⟨hentered, hsome⟩, fun _ => hsome, id⟩
  | adopt process input =>
    obtain ⟨rfl, rfl⟩ := Prod.mk.inj (Option.some.inj hstep)
    obtain ⟨hbooting, hsome, hresolved⟩ := h.adopted hentered.1 hentered.2
    exact ⟨hbooting, ⟨hsome, hresolved⟩, fun _ => hsome, fun _ => hresolved⟩
  | first pending =>
    obtain ⟨⟨provider, served⟩, hprovider, heq⟩ := Option.map_eq_some_iff.mp hstep
    obtain ⟨hbooting, hsome, hresolved⟩ := h.served hentered (providerStep_effect hprovider)
    obtain ⟨hbooted, hnext, hprovider', hunresolved⟩ := hbooting.booted heq hsome hresolved
    refine ⟨hbooted, hnext, fun _ => ?_, fun _ => ?_⟩
    · rw [hprovider']
      exact hsome
    · rw [hunresolved]
      exact hresolved
  | serving pending =>
    obtain ⟨⟨provider, served⟩, hprovider, heq⟩ := Option.map_eq_some_iff.mp hstep
    obtain ⟨rfl, rfl⟩ := Prod.mk.inj heq
    have hready := hentered (providerStep_busy hprovider)
    obtain ⟨hbooting, hsome, hresolved⟩ := h.served hready (providerStep_effect hprovider)
    exact ⟨hbooting, fun _ => ⟨hsome, hresolved⟩, fun _ => hsome, fun _ => hresolved⟩

/-- A statement that fails. -/
theorem bootFails_entered {e : ServiceError} (hfails : bootFails e call = some call')
    (hentered : Entered defaults w call) : Entered defaults w call' := by
  cases call with
  | idle => cases hfails
  | exited => cases hfails
  | ensure process input =>
    obtain rfl := Option.some.inj hfails
    trivial
  | adopt process input =>
    obtain rfl := Option.some.inj hfails
    trivial
  | first pending =>
    obtain ⟨failed, -, rfl⟩ := Option.map_eq_some_iff.mp hfails
    trivial
  | serving pending =>
    obtain ⟨failed, hfailed, rfl⟩ := Option.map_eq_some_iff.mp hfails
    refine fun _ => hentered ?_
    cases hphase : pending.phase with
    | idle | done | load | swap => simp [failStep, hphase] at hfailed
    | read | update | compareAndSwap => rfl

/-- Every label of a process. -/
theorem bootCalls_kept {a : BootAction} (hstep : (bootCalls u).step w call a = some (w', call'))
    (h : Booting defaults row unresolved w) (hentered : Entered defaults w call)
    (hnull : unresolved → row.isSome)
    (hboots : ∀ process raw, a = .boot process raw →
      ∀ normalized, NormalizeRuntimeSettings u raw = .ok normalized → defaults normalized) :
    BootKept defaults row unresolved w w' call' := by
  cases a with
  | boot process raw =>
    obtain ⟨-, heq⟩ := Option.ite_none_right_eq_some.mp hstep
    obtain ⟨rfl, rfl⟩ := Prod.mk.inj (Option.some.inj heq)
    refine .same h ?_
    unfold bootCall
    split
    · trivial
    · exact hboots process raw rfl _ ‹_›
  | start process request =>
    obtain ⟨hstarts, heq⟩ := Option.ite_none_right_eq_some.mp hstep
    obtain ⟨rfl, rfl⟩ := Prod.mk.inj (Option.some.inj heq)
    obtain ⟨-, hup⟩ := Bool.and_eq_true_iff.mp hstarts
    exact .same h fun _ => h.up process hup
  | next now => exact bootStep_kept hstep h hentered hnull
  | fail e =>
    obtain ⟨failed, hfails, heq⟩ := Option.map_eq_some_iff.mp hstep
    obtain ⟨rfl, rfl⟩ := Prod.mk.inj heq
    exact .same h (bootFails_entered hfails hentered)

/-- What the other processes may rely on stays. -/
theorem bootCalls_settles {a : BootAction} (hstep : (bootCalls u).step w call a = some (w', call'))
    (h : Booting defaults row unresolved w) (hentered : Entered defaults w call)
    (hnull : unresolved → row.isSome) : Settles w w' := by
  cases a with
  | boot process raw =>
    obtain ⟨-, heq⟩ := Option.ite_none_right_eq_some.mp hstep
    obtain ⟨rfl, -⟩ := Prod.mk.inj (Option.some.inj heq)
    exact .refl w
  | _ => exact (bootCalls_kept hstep h hentered hnull fun _ _ ha => by cases ha).settles

/-! ## Runs -/

/-- Nothing has booted.  Only a row that there is has a switch that is NULL, which reads as
off. -/
structure BootInitial (s : Pool BootWorld BootCall) : Prop where
  calls : ∀ i, s.locals i = .idle
  heap : s.shared.provider.heap = []
  booted : ∀ process, s.shared.booted process = false
  unresolved : s.shared.unresolved → s.shared.provider.row.isSome

theorem booting_init {s : Pool BootWorld BootCall} (h : BootInitial s) :
    Booting defaults s.shared.provider.row s.shared.unresolved s.shared := by
  have hnone : ∀ x, x ∉ s.shared.provider.heap := by
    rw [h.heap]
    exact fun x => List.not_mem_nil
  exact {
    newest := fun x hx => absurd hx (hnone x)
    agree := fun x hx => absurd hx (hnone x)
    unread := fun hunresolved => ⟨h.heap, rfl, hunresolved⟩
    first := by
      intro hresolved current hrow
      rw [hrow, Bool.eq_false_of_not_eq_true hresolved]
      exact Or.inr rfl
    read := fun x hx => absurd hx (hnone x)
    kept := id
    up := by
      intro process hup
      rw [h.booted] at hup
      cases hup }

/-- What a process has published. -/
theorem current_mem {provider : ProviderWorld} {process : ℕ} {x : RuntimeSettings}
    (hx : provider.current process = some x) : x ∈ provider.heap := by
  obtain ⟨ptr, -, hptr⟩ := Option.bind_eq_some_iff.mp hx
  exact List.mem_of_getElem? hptr

/-- Processes boot in any order and at any time, beside the calls of those that are up.  What
any two of them publish at one revision is the same settings.  None publishes before the
switch is resolved, and what it publishes are the settings that were there, with a switch
that was NULL adopted from the defaults of one boot, or settings seeded by a boot when there
were none, or a later revision. -/
theorem boots_agree {init s : Pool BootWorld BootCall} {as : List (ℕ × BootAction)}
    (hinit : BootInitial init) (hrun : (bootCalls u).machine.run init as = some s) :
    (∀ process other x y, s.shared.provider.current process = some x →
      s.shared.provider.current other = some y → x.revision = y.revision → x = y) ∧
    ∀ process x, s.shared.provider.current process = some x →
      ¬ s.shared.unresolved ∧
      FirstSettings (BootsWith u as) init.shared.provider.row init.shared.unresolved x ∧
      ∃ current, s.shared.provider.row = some current ∧ x.revision ≤ current.revision := by
  have hboots : (bootCalls u).machine.Along (fun _ a => a ∈ as) init as :=
    Machine.along_of_mem _ (fun _ ha => ha) init
  have hstart : ∀ i, Entered (BootsWith u as) init.shared (init.locals i) := by
    intro i
    rw [hinit.calls i]
    trivial
  obtain ⟨hbooting, -⟩ := Process.run_locals
    (I := Booting (BootsWith u as) init.shared.provider.row init.shared.unresolved)
    (P := Entered (BootsWith u as)) (C := fun _ a => a ∈ as)
    (by
      intro v i a x l hI hP hmem hstep
      have hkept := bootCalls_kept hstep hI hP hinit.unresolved fun process raw ha normalized hok =>
        ⟨i, process, raw, ha ▸ hmem, hok⟩
      exact ⟨hkept.booting, hkept.entered⟩)
    (by
      intro v i a x l m hI hP hm hstep
      exact hm.mono (bootCalls_settles hstep hI hP hinit.unresolved))
    ⟨booting_init hinit, hstart⟩ hboots hrun
  refine ⟨fun process other x y hx hy heq =>
    hbooting.agree x (current_mem hx) y (current_mem hy) heq,
    fun process x hx => ⟨fun hunresolved => ?_, hbooting.read x (current_mem hx), ?_⟩⟩
  · have hempty := current_mem hx
    rw [(hbooting.unread hunresolved).1] at hempty
    cases hempty
  · obtain ⟨current, hrow, hle, -⟩ := hbooting.newest x (current_mem hx)
    exact ⟨current, hrow, hle⟩

end

/-! ## Two processes after an upgrade -/

/-- The settings before the upgrade, whose switch is NULL. -/
def upgradedPool : Pool BootWorld BootCall where
  shared := {
    provider := { row := some firstSettings }
    unresolved := true }
  locals _ := .idle

theorem upgradedPool_initial : BootInitial upgradedPool where
  calls _ := rfl
  heap := rfl
  booted _ := rfl
  unresolved _ := rfl

/-- The defaults of a process that has `TOTP_ENABLED` set. -/
def switchedOn : RuntimeSettingsInput :=
  { firstSettings.toRuntimeSettingsInput with totpEnabled := true }

/-- Two processes boot at once, the second of them with the second factor on.  It is the first
to adopt. -/
def bootSteps : List (ℕ × BootAction) :=
  [(0, .boot 1 firstSettings.toRuntimeSettingsInput), (1, .boot 2 switchedOn),
    (0, .next 10), (1, .next 10), (1, .next 11), (0, .next 12)] ++
    List.replicate 3 (0, .next 13) ++ List.replicate 3 (1, .next 14)

theorem boots_agree_upgraded :
    ∃ s, (bootCalls .ascii).machine.run upgradedPool bootSteps = some s ∧
      ∃ x y, s.shared.provider.current 1 = some x ∧ s.shared.provider.current 2 = some y ∧
        x.totpEnabled = true ∧ x = y := by
  have hdone : ((bootCalls .ascii).machine.run upgradedPool bootSteps).map
      (fun s => (s.shared.provider.current 1, s.shared.provider.current 2)) =
      some (some { firstSettings with totpEnabled := true },
        some { firstSettings with totpEnabled := true }) := by rfl
  obtain ⟨s, hrun, hcurrent⟩ := Option.map_eq_some_iff.mp hdone
  obtain ⟨hone, htwo⟩ := Prod.mk.inj hcurrent
  exact ⟨s, hrun, _, _, hone, htwo, rfl,
    (boots_agree upgradedPool_initial hrun).1 1 2 _ _ hone htwo rfl⟩

end Purels.Properties
