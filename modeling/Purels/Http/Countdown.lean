import Purels.Lib.Progress

/-!
# The countdown of the interstitial page

The script `redirect.js` that the gallery page runs: it counts down to the visit of the link, and
can be paused.

* `Countdown`: the variables of the script, with the timer that is pending.
* `updateRemaining`, `tick`, `pause`, `resume`: its functions.
* `PageEvent` and `countdown`: the events that the page listens to.
* `load`: what the script does at first.
-/

namespace Purels.Http

open Lib

/-- The variables of the script.  Times are whole milliseconds of `performance.now()`. -/
structure Countdown where
  remaining : ℕ
  startedAt : ℕ
  paused : Bool := false
  leaving : Bool := false
  /-- When the pending timer is due. -/
  timer : Option ℕ := none
  /-- When the last event came. -/
  clock : ℕ
  deriving DecidableEq

namespace Countdown

/-- The time goes by. -/
def running (s : Countdown) : Bool := !s.paused && !s.leaving

/-- `updateRemaining`. -/
def updateRemaining (s : Countdown) (now : ℕ) : Countdown :=
  { s with remaining := s.remaining - (now - s.startedAt), startedAt := now }

/-- `tick`: the visit begins, or a timer is set. -/
def tick (s : Countdown) (now : ℕ) : Countdown :=
  if s.paused || s.leaving then s
  else
    let s := s.updateRemaining now
    if s.remaining = 0 then { s with leaving := true, timer := none }
    else { s with timer := some (now + min 50 s.remaining) }

/-- `pause`. -/
def pause (s : Countdown) (now : ℕ) : Countdown :=
  let s := if !s.paused && !s.leaving then s.updateRemaining now else s
  { s with paused := true, timer := none }

/-- `resume`. -/
def resume (s : Countdown) (now : ℕ) : Countdown :=
  if s.leaving then s else tick { s with paused := false, startedAt := now } now

end Countdown

/-- What the page listens to. -/
inductive PageEvent where
  /-- The pending timer. -/
  | timer
  /-- The pause button. -/
  | click
  | pagehide
  | pageshow (persisted : Bool)
  deriving DecidableEq

open Countdown

/-- The handler of an event.  A timer fires once, and not before it is due. -/
def onEvent (s : Countdown) (now : ℕ) : PageEvent → Option Countdown
  | .timer =>
    match s.timer with
    | none => none
    | some due => if due ≤ now then some ({ s with timer := none }.tick now) else none
  | .click => some (if s.paused then s.resume now else s.pause now)
  | .pagehide => some (s.pause now)
  | .pageshow persisted => some (if persisted then { s with leaving := false }.pause now else s)

/-- The page.  Events come one after the other. -/
def countdown : Machine Countdown (PageEvent × ℕ) where
  step s a :=
    if a.2 < s.clock then none
    else (onEvent s a.2 a.1).map fun t => { t with clock := a.2 }

/-- The end of the script, with the `data-seconds` of the page. -/
def load (seconds now : ℕ) : Option Countdown :=
  if 0 < seconds ∧ seconds ≤ 60 then
    some (tick { remaining := seconds * 1000, startedAt := now, clock := now } now)
  else none

end Purels.Http
