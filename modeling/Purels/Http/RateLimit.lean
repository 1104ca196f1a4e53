import Purels.Cache.Counters
import Purels.Lib.Processes

/-!
# The rate limiter

`DynamicLimit`, command by command: requests run side by side, and each command that they send
to the cache may fail.

* `CommandOutcome`: what becomes of a command.
* `BucketRequest`, `Sent`, `LimitWorld`: a request, its record, and the state that is shared.
* `LimitCall`, `nextLimitStep` and `limitCalls`: the steps of a request.
-/

namespace Purels.Http

open Go Lib Cache

/-! ## Requests -/

/-- What becomes of a command: it is carried out, it is carried out and its answer does not
arrive, or it is not carried out. -/
inductive CommandOutcome where
  | executed
  | lost
  | failed
  deriving DecidableEq

/-- A request to a bucket, with the settings that are read for it. -/
structure BucketRequest where
  name : GoString
  client : GoString
  enabled : Bool
  limit : Int

/-- The key of a client's counter. -/
def rateKey (name client : GoString) : GoString := lit "purels:rl:" ++ name ++ lit ":" ++ client

/-- The record of a request that sent `INCR`. No step reads it. -/
structure Sent where
  name : GoString
  client : GoString
  sentAt : ℕ
  limit : Int
  /-- When the counter was made whose value came back. -/
  window : Option ℕ
  admitted : Bool
  deriving DecidableEq

/-- The key of the counter of a request. -/
def Sent.key (sent : Sent) : GoString := rateKey sent.name sent.client

/-- The counters, and the requests that have been sent. -/
structure LimitWorld where
  counters : Counters
  history : List Sent

/-- Where a request stands. -/
inductive LimitCall where
  /-- Reads the settings, and sends `INCR`. -/
  | arrived (request : BucketRequest)
  /-- Sends `EXPIRE`. -/
  | expiring (sent : Sent) (count : ℕ)
  /-- Sends `TTL`. -/
  | overdue (sent : Sent)
  /-- Passed on, with the limit and what remains of it in the headers. -/
  | served (sent : Option Sent) (headers : Option (Int × Int))
  /-- Answered 429, with the limit, what remains of it, and the seconds to wait. -/
  | rejected (sent : Sent) (headers : Int × Int) (retryAfter : Int)

/-! ## Steps -/

section

variable (cached : Bool) (window : ℕ)

/-- The request is not limited. -/
def unlimited (request : BucketRequest) : Bool :=
  !request.enabled || !cached || decide (request.limit ≤ 0)

/-- What remains of a limit. -/
def remaining (limit : Int) (count : ℕ) : Int := if limit - count < 0 then 0 else limit - count

/-- A request whose number is known. -/
def countedCall (sent : Sent) (count : ℕ) : LimitCall :=
  if (count : Int) > sent.limit then .overdue sent
  else .served (some sent) (some (sent.limit, remaining sent.limit count))

/-- The record of a request whose `INCR` returned the value of a counter. -/
def countedSent (w : LimitWorld) (request : BucketRequest) (counter : Counter) : Sent where
  name := request.name
  client := request.client
  sentAt := w.counters.clock
  limit := request.limit
  window := some counter.since
  admitted := decide ((counter.value : Int) ≤ request.limit)

/-- The record of a request whose `INCR` returned an error. -/
def uncountedSent (w : LimitWorld) (request : BucketRequest) : Sent where
  name := request.name
  client := request.client
  sentAt := w.counters.clock
  limit := request.limit
  window := none
  admitted := true

/-- The step of `INCR`. -/
def incrStep (w : LimitWorld) (request : BucketRequest) : CommandOutcome → LimitWorld × LimitCall
  | .executed =>
    let key := rateKey request.name request.client
    let counter := w.counters.incremented key
    let sent := countedSent w request counter
    (⟨w.counters.Incr key, w.history ++ [sent]⟩,
      if counter.value = 1 then .expiring sent counter.value else countedCall sent counter.value)
  | .lost =>
    let sent := uncountedSent w request
    (⟨w.counters.Incr (rateKey request.name request.client), w.history ++ [sent]⟩,
      .served (some sent) none)
  | .failed =>
    let sent := uncountedSent w request
    (⟨w.counters, w.history ++ [sent]⟩, .served (some sent) none)

/-- The step of `EXPIRE`, whose error nobody looks at. -/
def expireStep (w : LimitWorld) (sent : Sent) (count : ℕ) (outcome : CommandOutcome) :
    LimitWorld × LimitCall :=
  let counters :=
    if outcome = .failed then w.counters
    else w.counters.Expire sent.key window
  (⟨counters, w.history⟩, countedCall sent count)

/-- The seconds of `Retry-After`. -/
def retryAfter (w : LimitWorld) (sent : Sent) (outcome : CommandOutcome) : Int :=
  let ttl := w.counters.TTL sent.key
  if outcome = .executed ∧ 0 < ttl then ttl + 1 else window

/-- A label: time passes, or a request takes its next step. -/
inductive LimitLabel where
  | tick (elapsed : ℕ)
  | next (outcome : CommandOutcome)

/-- Time passes. -/
def LimitWorld.tick (w : LimitWorld) (elapsed : ℕ) : LimitWorld :=
  { w with counters := { w.counters with clock := w.counters.clock + elapsed } }

/-- The next step of `DynamicLimit`. -/
def nextLimitStep (w : LimitWorld) (call : LimitCall) :
    LimitLabel → Option (LimitWorld × LimitCall)
  | .tick elapsed => some (w.tick elapsed, call)
  | .next outcome =>
    match call with
    | .arrived request =>
      if unlimited cached request then some (w, .served none none)
      else some (incrStep w request outcome)
    | .expiring sent count => some (expireStep window w sent count outcome)
    | .overdue sent =>
      some (w, .rejected sent (sent.limit, 0) (retryAfter window w sent outcome))
    | .served .. => none
    | .rejected .. => none

/-- `DynamicLimit` with a window in seconds, for any number of requests. -/
def limitCalls : Process LimitWorld LimitCall LimitLabel where
  step := nextLimitStep cached window

end

end Purels.Http
