import Purels.Config.Runtime
import Purels.Lib.Processes
import Purels.Store.RuntimeSettings

/-!
# The runtime provider

`RuntimeProvider` in any number of operating-system processes, each with any number of
calls in progress, as processes over one row.  A store statement is one step, and so is
a load and a compare-and-swap of the snapshot pointer.

* `ProviderWorld`: the row, and each process' pointer into the snapshots allocated.
* `ProviderCall`: a call and how far it has come.
* `providerStep` and `providerCalls`: the steps.
-/

namespace Purels.Config

open Go Store Lib

/-! ## The shared state -/

structure ProviderWorld where
  row : Option RuntimeSettings
  /-- Snapshots, never changed once they are allocated. -/
  heap : List RuntimeSettings := []
  /-- `current` of each process. -/
  cells : ℕ → Option ℕ := fun _ => none

/-- The snapshot a process has published. -/
def ProviderWorld.current (w : ProviderWorld) (process : ℕ) : Option RuntimeSettings :=
  (w.cells process).bind fun ptr => w.heap[ptr]?

/-! ## Calls -/

inductive ProviderRequest where
  | refresh
  | update (input : RuntimeSettingsInput)
  | patch (patch : RuntimeSettingsPatch)

/-- What the calls fail with. -/
inductive ProviderError where
  | patch (e : PatchError)
  | settings (e : SettingsError)
  | store (e : ServiceError)
  deriving DecidableEq

inductive ProviderResult where
  | refreshed
  | saved (settings : RuntimeSettings)
  | failed (e : ProviderError)
  deriving DecidableEq

/-- Why a call reads the row. -/
inductive ReadFor where
  | refresh
  | patch (patch : RuntimeSettingsPatch)
  /-- The refresh of a patch that has lost. -/
  | conflict

/-- What a call does once a snapshot is published. -/
inductive PublishThen where
  | finish (result : ProviderResult)
  | merge (patch : RuntimeSettingsPatch)

inductive ProviderPhase where
  | idle
  /-- `GetRuntimeSettings`. -/
  | read (why : ReadFor)
  /-- The load of `publish`; `ptr` is its own snapshot. -/
  | load (ptr : ℕ) (settings : RuntimeSettings) (next : PublishThen)
  /-- The compare-and-swap of `publish`. -/
  | swap (ptr : ℕ) (settings : RuntimeSettings) (loaded : Option ℕ) (next : PublishThen)
  /-- `UpdateRuntimeSettings`. -/
  | update (input : RuntimeSettingsInput)
  /-- `CompareAndSwapRuntimeSettings`, with settings merged into `current`. -/
  | compareAndSwap (input : RuntimeSettingsInput) (patch : RuntimeSettingsPatch)
      (current : RuntimeSettings)
  | done (result : ProviderResult)

/-- A call in a process.  `wrote` is the row before and after its write, if it has
written; no step reads it. -/
structure ProviderCall where
  process : ℕ := 0
  request : ProviderRequest := .refresh
  wrote : Option (RuntimeSettings × RuntimeSettings) := none
  phase : ProviderPhase := .idle

/-- A label: a call starts, takes its next step at a time of the clock, or has its
statement fail. -/
inductive ProviderAction where
  | start (process : ℕ) (request : ProviderRequest)
  | next (now : Instant)
  | fail (e : ServiceError)

/-! ## Steps -/

section

variable (u : Unicode)

/-- Where a call begins, with the checks that read no table. -/
def ProviderRequest.phase : ProviderRequest → ProviderPhase
  | .refresh => .read .refresh
  | .update input =>
    match NormalizeRuntimeSettings u input with
    | .error e => .done (.failed (.settings e))
    | .ok normalized => .update normalized
  | .patch p =>
    match p.Apply u {} with
    | .error e => .done (.failed (.patch e))
    | .ok _ => .read (.patch p)

/-- `publish` begins: its snapshot is allocated. -/
def publish (settings : RuntimeSettings) (next : PublishThen) (w : ProviderWorld)
    (call : ProviderCall) : ProviderWorld × ProviderCall :=
  ({ w with heap := w.heap ++ [settings] },
    { call with phase := .load w.heap.length settings next })

/-- `Patch` once it has published what it read. -/
def mergePhase (patch : RuntimeSettingsPatch) (current : RuntimeSettings) : ProviderPhase :=
  if current.revision ≠ patch.revision then .done (.failed (.store .conflict))
  else
    match patch.Apply u current.toRuntimeSettingsInput with
    | .error e => .done (.failed (.patch e))
    | .ok input =>
      match NormalizeRuntimeSettings u input with
      | .error e => .done (.failed (.settings e))
      | .ok normalized => .compareAndSwap normalized patch current

/-- What follows a publication of `settings`. -/
def PublishThen.phase (settings : RuntimeSettings) : PublishThen → ProviderPhase
  | .finish result => .done result
  | .merge patch => mergePhase u patch settings

/-- A read that failed. -/
def ReadFor.failed (e : ServiceError) : ReadFor → ProviderPhase
  | .conflict => .done (.failed (.store .conflict))
  | _ => .done (.failed (.store e))

/-- A read that succeeded: its row is published. -/
def ReadFor.next : ReadFor → PublishThen
  | .refresh => .finish .refreshed
  | .conflict => .finish (.failed (.store .conflict))
  | .patch p => .merge p

/-- A write that failed.  A patch that lost publishes the winner. -/
def writeFailed (e : ServiceError) : ProviderPhase → ProviderPhase
  | .compareAndSwap .. =>
    if e = .conflict then .read .conflict else .done (.failed (.store e))
  | _ => .done (.failed (.store e))

/-- A write of the call and what follows it. -/
def writeStep (write : Except ServiceError RuntimeSettings × Option RuntimeSettings)
    (w : ProviderWorld) (call : ProviderCall) : ProviderWorld × ProviderCall :=
  match write with
  | (.ok settings, row) =>
    publish settings (.finish (.saved settings)) { w with row }
      { call with wrote := w.row.map fun before => (before, settings) }
  | (.error e, row) => ({ w with row }, { call with phase := writeFailed e call.phase })

/-- The next step of a call. -/
def providerStep (now : Instant) (w : ProviderWorld) (call : ProviderCall) :
    Option (ProviderWorld × ProviderCall) :=
  match call.phase with
  | .idle | .done _ => none
  | .read why =>
    match GetRuntimeSettings w.row with
    | .error e => some (w, { call with phase := why.failed e })
    | .ok settings => some (publish settings why.next w call)
  | .load ptr settings next =>
    if (w.current call.process).any fun current => settings.revision ≤ current.revision then
      some (w, { call with phase := next.phase u settings })
    else some (w, { call with phase := .swap ptr settings (w.cells call.process) next })
  | .swap ptr settings loaded next =>
    if w.cells call.process = loaded then
      some ({ w with cells := Function.update w.cells call.process (some ptr) },
        { call with phase := next.phase u settings })
    else some (w, { call with phase := .load ptr settings next })
  | .update input => some (writeStep (UpdateRuntimeSettings input now w.row) w call)
  | .compareAndSwap input patch _ =>
    some (writeStep (CompareAndSwapRuntimeSettings input patch.revision now w.row) w call)

/-- A statement that fails changes nothing. -/
def failStep (e : ServiceError) (call : ProviderCall) : Option ProviderCall :=
  match call.phase with
  | .read why => some { call with phase := why.failed e }
  | .update _ => some { call with phase := writeFailed e call.phase }
  | .compareAndSwap .. => some { call with phase := writeFailed e call.phase }
  | _ => none

/-- No call is in progress. -/
def ProviderPhase.free : ProviderPhase → Bool
  | .idle | .done _ => true
  | _ => false

/-- The calls as processes. -/
def providerCalls : Process ProviderWorld ProviderCall ProviderAction where
  step w call
    | .start process request =>
      if call.phase.free then
        some (w, { process, request, wrote := none, phase := request.phase u })
      else none
    | .next now => providerStep u now w call
    | .fail e => (failStep e call).map fun call => (w, call)

end

end Purels.Config
