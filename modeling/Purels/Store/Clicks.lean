import Purels.Lib.Processes
import Purels.Lib.Tables
import Purels.Store.Links

/-!
# Recording and rolling up clicks

`CreateClickEvent` and the transaction of `AggregateClicks`, statement by statement, as
processes over the raw events and the daily rollup.  The row locks of open transactions
are part of the shared state; what a transaction has written is its own until it
commits.

* `ClickTables`: committed rows and row locks.
* `scanClickAggregates`: the sums a transaction makes in memory.
* `clickCalls`: the steps.  `FOR UPDATE SKIP LOCKED` locks one row at a time and checks
  its predicate on the row it locks; in which order rows are met is left open.
-/

namespace Purels.Store

open Go Lib

/-! ## Tables -/

/-- A key of `link_click_daily`. -/
abbrev DailyKey := Uuid × Int

def DailyRow.key (row : DailyRow) : DailyKey := (row.linkID, row.day)

structure ClickTables where
  links : List Uuid
  events : List ClickEvent := []
  daily : List DailyRow := []
  lockedEvents : List Uuid := []
  lockedDaily : List DailyKey := []
  /-- The events that committed transactions have counted.  No step reads it. -/
  counted : List Uuid := []

/-! ## Clicks -/

/-- `truncate`. -/
def truncate (value : GoString) (max : Nat) : GoString := value.take max

/-- What the redirect handler knows of a click, with the identifier it draws. -/
structure Click where
  id : Uuid
  linkID : Uuid
  ipHash : Option (List UInt8)
  userAgent : GoString
  referrer : GoString
  isBot : Bool

/-- `CreateClickEvent`. -/
def ClickTables.CreateClickEvent (s : ClickTables) (click : Click) (now : Instant) :
    Except ServiceError ClickTables :=
  let userAgent := truncate click.userAgent 512
  let referrer := truncate click.referrer 2048
  if !storableText userAgent || !storableText referrer then .error .database
  else if !s.links.contains click.linkID || s.events.any (·.id == click.id) then .error .database
  else
    .ok { s with events := s.events ++ [{
      id := click.id, linkID := click.linkID, occurredAt := now, ipHash := click.ipHash,
      userAgent := some userAgent, referrer := some referrer, isBot := click.isBot }] }

/-! ## Sums in memory -/

/-- `clickAggregate`. -/
structure ClickAggregate where
  linkID : Uuid
  day : Int
  count : Int := 0
  botCount : Int := 0
  deriving DecidableEq

def ClickAggregate.key (item : ClickAggregate) : DailyKey := (item.linkID, item.day)

/-- One more event of the aggregate. -/
def ClickAggregate.add (item : ClickAggregate) (isBot : Bool) : ClickAggregate :=
  { item with
    count := item.count + 1
    botCount := if isBot then item.botCount + 1 else item.botCount }

/-- The body of the loop of `scanClickAggregates`, on the map of the aggregates. -/
def countClick (counts : List ClickAggregate) (linkID : Uuid) (day : Int) (isBot : Bool) :
    List ClickAggregate :=
  let item := (lookup ClickAggregate.key counts (linkID, day)).getD { linkID, day }
  put ClickAggregate.key counts (item.add isBot)

section

variable (loc : DatabaseLocale)

/-- The key of the rollup row an event belongs to. -/
def dayKey (event : ClickEvent) : DailyKey := (event.linkID, loc.date event.occurredAt)

/-- `scanClickAggregates`. -/
def scanClickAggregates (rows : List ClickEvent) : List ClickAggregate :=
  rows.foldl (fun counts event =>
    countClick counts event.linkID (loc.date event.occurredAt) event.isBot) []

/-! ## Statements of the transaction -/

/-- The upsert of one aggregate: the row it leaves. -/
def upsertRow (daily : List DailyRow) (item : ClickAggregate) : DailyRow :=
  match lookup DailyRow.key daily item.key with
  | some row =>
    { row with clicks := row.clicks + item.count, botClicks := row.botClicks + item.botCount }
  | none =>
    { linkID := item.linkID, day := item.day, clicks := item.count, botClicks := item.botCount }

/-- The events of a batch become processed. -/
def markProcessed (ids : List Uuid) (now : Instant) (events : List ClickEvent) : List ClickEvent :=
  events.map fun event =>
    if ids.contains event.id then { event with processedAt := some now } else event

/-- Where a transaction of `AggregateClicks` stands. -/
inductive AggregateCall where
  | idle
  /-- In the SELECT, with the rows it has locked. -/
  | selecting (batchSize : Int) (batch : List ClickEvent)
  /-- Between the upserts. -/
  | upserting (batch : List ClickEvent) (remaining : List ClickAggregate) (written : List DailyRow)
  /-- Before the commit; the time is that of the UPDATE, if there was one. -/
  | committing (batch : List ClickEvent) (written : List DailyRow) (marked : Option Instant)

/-- A label. -/
inductive ClickAction where
  /-- A click is recorded. -/
  | click (click : Click) (now : Instant)
  | begin (batchSize : Int)
  /-- The SELECT locks an event. -/
  | lock (event : ClickEvent)
  /-- The SELECT ends. -/
  | selected
  /-- The upsert of one of the aggregates that are left. -/
  | upsert (item : ClickAggregate)
  /-- The UPDATE of the batch, when it has rows. -/
  | mark (now : Instant)
  | commit
  | rollback

/-- The locks of a transaction are released. -/
def ClickTables.release (s : ClickTables) (batch : List ClickEvent) (written : List DailyRow) :
    ClickTables :=
  { s with
    lockedEvents := s.lockedEvents.filter fun id => !(batch.map (·.id)).contains id
    lockedDaily := s.lockedDaily.filter fun key => !(written.map (·.key)).contains key }

/-- What a transaction has written becomes visible. -/
def ClickTables.publish (s : ClickTables) (batch : List ClickEvent) (written : List DailyRow)
    (marked : Option Instant) : ClickTables :=
  { s with
    daily := written.foldl (put DailyRow.key) s.daily
    events := match marked with
      | none => s.events
      | some now => markProcessed (batch.map (·.id)) now s.events
    counted := s.counted ++ batch.map (·.id) }

/-- The next step of a process. -/
def clickStep (s : ClickTables) : AggregateCall → ClickAction → Option (ClickTables × AggregateCall)
  | .idle, .click click now =>
    match s.CreateClickEvent click now with
    | .error _ => some (s, .idle)
    | .ok s => some (s, .idle)
  | .idle, .begin batchSize => some (s, .selecting batchSize [])
  | .selecting batchSize batch, .lock event =>
    if s.events.contains event && event.processedAt.isNone &&
        !s.lockedEvents.contains event.id && decide ((batch.length : Int) < batchSize) then
      some ({ s with lockedEvents := event.id :: s.lockedEvents },
        .selecting batchSize (batch ++ [event]))
    else none
  | .selecting batchSize batch, .selected =>
    if 0 ≤ batchSize then some (s, .upserting batch (scanClickAggregates loc batch) []) else none
  | .upserting batch remaining written, .upsert item =>
    if remaining.contains item && !s.lockedDaily.contains item.key then
      some ({ s with lockedDaily := item.key :: s.lockedDaily },
        .upserting batch (remaining.erase item) (written ++ [upsertRow s.daily item]))
    else none
  | .upserting batch [] written, .mark now =>
    if batch.isEmpty then none else some (s, .committing batch written (some now))
  | .upserting [] [] written, .commit =>
    some ((s.publish [] written none).release [] written, .idle)
  | .committing batch written marked, .commit =>
    some ((s.publish batch written marked).release batch written, .idle)
  | .selecting _ batch, .rollback => some (s.release batch [], .idle)
  | .upserting batch _ written, .rollback => some (s.release batch written, .idle)
  | .committing batch written _, .rollback => some (s.release batch written, .idle)
  | _, _ => none

/-- The clicks and the transactions as processes. -/
def clickCalls : Process ClickTables AggregateCall ClickAction where
  step := clickStep loc

end

end Purels.Store
