import Purels.Config.Provider

/-!
# Booting

`NewRuntimeProvider` in any number of operating-system processes, beside the calls of the
providers that are up.  The column `totp_enabled` may be NULL until a boot adopts a value.

* `BootWorld`: the row with its switch, the snapshots, and which processes are up.
* `EnsureRuntimeSettings`, `AdoptTOTPDefault`: the two statements of a boot.
* `bootStep` and `bootCalls`: the steps, those of `providerStep` among them.
-/

namespace Purels.Config

open Go Store Lib

/-! ## The row -/

/-- The shared state of the providers, and whether the stored switch is NULL.  The row is what
`scanRuntimeSettings` makes of it: a switch that is NULL reads as off. -/
structure BootWorld where
  provider : ProviderWorld
  unresolved : Bool := false
  /-- The processes that have a provider. -/
  booted : ℕ → Bool := fun _ => false

/-- The row that a first boot seeds. -/
def seededSettings (input : RuntimeSettingsInput) (now : Instant) : RuntimeSettings where
  toRuntimeSettingsInput := input
  revision := 1
  updatedAt := now

/-- `EnsureRuntimeSettings`: a row that there is stays as it is. -/
def EnsureRuntimeSettings (input : RuntimeSettingsInput) (now : Instant)
    (row : Option RuntimeSettings) : Except ServiceError (Option RuntimeSettings) :=
  if !storableSettings input then .error .database
  else
    match row with
    | some settings => .ok (some settings)
    | none => .ok (some (seededSettings input now))

/-- `AdoptTOTPDefault`: only a NULL switch is set, and the revision stays. -/
def AdoptTOTPDefault (enabled : Bool) (w : BootWorld) : BootWorld :=
  if w.unresolved then
    { w with
      provider := { w.provider with
        row := w.provider.row.map fun settings => { settings with totpEnabled := enabled } }
      unresolved := false }
  else w

/-! ## Calls -/

/-- Where a process stands: its boot, then the calls of its provider. -/
inductive BootCall where
  | idle
  /-- It seeds the row. -/
  | ensure (process : ℕ) (defaults : RuntimeSettingsInput)
  /-- It adopts the switch. -/
  | adopt (process : ℕ) (defaults : RuntimeSettingsInput)
  /-- The first refresh, with which the boot ends. -/
  | first (call : ProviderCall)
  | serving (call : ProviderCall)
  /-- The boot has failed. -/
  | exited

/-- A label: a process boots with defaults, a call of a provider starts, or a step is taken or
fails. -/
inductive BootAction where
  | boot (process : ℕ) (defaults : RuntimeSettingsInput)
  | start (process : ℕ) (request : ProviderRequest)
  | next (now : Instant)
  | fail (e : ServiceError)

/-- No call is in progress. -/
def BootCall.free : BootCall → Bool
  | .idle => true
  | .serving call => call.phase.free
  | _ => false

section

variable (u : Unicode)

/-- A boot begins with the normalized defaults. -/
def bootCall (process : ℕ) (defaults : RuntimeSettingsInput) : BootCall :=
  match NormalizeRuntimeSettings u defaults with
  | .error _ => .exited
  | .ok normalized => .ensure process normalized

/-- The refresh of a boot. -/
def firstRefresh (process : ℕ) : ProviderCall where
  process
  request := .refresh
  phase := ProviderRequest.phase u .refresh

/-! ## Steps -/

/-- A step of a provider: what it writes has a switch. -/
def servedWorld (w : BootWorld) (provider : ProviderWorld) : BootWorld :=
  { w with provider, unresolved := w.unresolved && decide (provider.row = w.provider.row) }

/-- Where the first refresh has come to. -/
def bootedCall (w : BootWorld) (call : ProviderCall) : BootWorld × BootCall :=
  match call.phase with
  | .done .refreshed =>
    ({ w with booted := Function.update w.booted call.process true }, .serving call)
  | .done _ => (w, .exited)
  | _ => (w, .first call)

/-- The next step of a call. -/
def bootStep (now : Instant) (w : BootWorld) : BootCall → Option (BootWorld × BootCall)
  | .idle | .exited => none
  | .ensure process defaults =>
    match EnsureRuntimeSettings defaults now w.provider.row with
    | .error _ => some (w, .exited)
    | .ok row => some ({ w with provider := { w.provider with row } }, .adopt process defaults)
  | .adopt process defaults =>
    some (AdoptTOTPDefault defaults.totpEnabled w, .first (firstRefresh u process))
  | .first call =>
    (providerStep u now w.provider call).map fun r => bootedCall (servedWorld w r.1) r.2
  | .serving call =>
    (providerStep u now w.provider call).map fun r => (servedWorld w r.1, .serving r.2)

/-- A statement that fails changes nothing, and ends a boot. -/
def bootFails (e : ServiceError) : BootCall → Option BootCall
  | .ensure .. | .adopt .. => some .exited
  | .first call => (failStep e call).map fun _ => .exited
  | .serving call => (failStep e call).map .serving
  | _ => none

/-- The boots and the calls as processes. -/
def bootCalls : Process BootWorld BootCall BootAction where
  step w call
    | .boot process defaults =>
      if call.free then some (w, bootCall u process defaults) else none
    | .start process request =>
      if call.free && w.booted process then
        some (w, .serving { process, request, phase := request.phase u })
      else none
    | .next now => bootStep u now w call
    | .fail e => (bootFails e call).map fun call => (w, call)

end

end Purels.Config
