import Purels.Service.Links
import Purels.Store.Stats

/-!
# The reads of the services

`LinkService.List`, `Get` and `Expand`, and `StatsService`.  The visibility
scope comes from the request context, and bounds are instants whose day is read
in the configured zone.

* `Expand`, `Get`, `ListLinks`, `ListTags`: the reads of `LinkService`.
* `StatsService`: the statistics of one link, and of all links in view.
* `StatsService.trendDays`: the loop of `GlobalTrend` over the days of a range.
-/

namespace Purels.Service

open Go Store

/-- `domain.LinkStats`. -/
structure LinkStats where
  totalClicks : Int
  daily : List (Int × Int)
  referrers : List (GoString × Nat)
  deriving DecidableEq

/-- `domain.ClickPage`. -/
structure ClickPage where
  clicks : List RecentClick
  total : Nat
  limit : Nat
  offset : Nat
  deriving DecidableEq

/-- `domain.LinkPage`. -/
structure LinkPage where
  links : List LinkRank
  total : Nat
  limit : Nat
  offset : Nat
  deriving DecidableEq

/-- `domain.TrendPoint`. -/
structure TrendPoint where
  day : Instant
  clicks : Int
  deriving DecidableEq

/-- `domain.StatsOverview` without the bounds, which the handler sets. -/
structure StatsOverview where
  totalLinks : Nat
  totalClicks : Int
  uniqueVisitors : Nat
  trend : List TrendPoint
  referrers : List (GoString × Nat)
  devices : List (Device × Nat)
  recentClicks : List RecentClick
  ipMode : GoString
  deriving DecidableEq

section

variable (u : Unicode) (loc : DatabaseLocale) (zone : Zone) (svc : LinkService)
  (settings : RuntimeSettingsInput)

/-! ## Links -/

/-- `Expand`. -/
def Expand (aliasName : GoString) (s : LinkStore) : Except ServiceError Link :=
  s.GetLinkByAlias loc aliasName

/-- `Get`. -/
def Get (ctx : Context) (id : GoString) (s : LinkStore) : Except ServiceError Link :=
  s.GetLink loc id ctx.ownerID

/-- `LinkService.List`. -/
def ListLinks (ctx : Context) (filter : ListFilter) (now : Instant) (s : LinkStore) :
    Except ServiceError LinkPage :=
  match s.ListLinks loc settings.countBots { filter with ownerID := ctx.ownerID } now with
  | .error e => .error e
  | .ok (ranks, total) =>
    .ok {
      links := ranks.map fun rank => { rank with shortURL := ShortURL u svc rank.link }
      total := total
      limit := filter.limit
      offset := filter.offset }

/-- `LinkService.ListTags`. -/
def ListTags (ctx : Context) (s : LinkStore) : List (GoString × Nat) := s.ListTags loc ctx.ownerID

namespace StatsService

/-! ## One link -/

/-- `LinkStats`; `stop` is exclusive. -/
def LinkStats (id : GoString) (start stop : Instant) (referrerLimit : Nat) (s : LinkStore) :
    Except ServiceError LinkStats :=
  match LinkStore.uuidParam id with
  | .error e => .error e
  | .ok id =>
    .ok {
      totalClicks := s.LinkTotalClicks settings.countBots id
      daily := s.DailyStats settings.countBots id (zone.day start) (zone.day stop)
      referrers := s.LinkReferrers loc settings.countBots id start stop referrerLimit }

/-- `LinkClicks`; `stop` is exclusive. -/
def LinkClicks (id : GoString) (start stop : Instant) (limit offset : Nat) (s : LinkStore) :
    Except ServiceError ClickPage :=
  match LinkStore.uuidParam id with
  | .error e => .error e
  | .ok id =>
    let (clicks, total) := s.LinkClicks settings.countBots id start stop limit offset
    .ok { clicks := clicks, total := total, limit := limit, offset := offset }

/-! ## All links -/

/-- `Summary`. -/
def Summary (ctx : Context) (s : LinkStore) : Nat × Int := s.Summary settings.countBots ctx.ownerID

/-- `Top`. -/
def Top (ctx : Context) (bottom : Bool) (limit : Nat) (start stop : Instant) (s : LinkStore) :
    List LinkRank :=
  s.TopLinks loc settings.countBots bottom limit (zone.day start) (zone.day stop) ctx.ownerID

/-- The days the loop of `GlobalTrend` makes points of; none when it has not
come to its end after `rounds` of them. -/
def trendDays (stop : Instant) : Nat → Instant → Option (List Instant)
  | 0, day => if day < stop then none else some []
  | rounds + 1, day =>
    if day < stop then (trendDays stop rounds (zone.addDays day 1)).map (day :: ·) else some []

/-- `GlobalTrend`. -/
def GlobalTrend (rounds : Nat) (start stop : Instant) (owner : Option Uuid) (s : LinkStore) :
    Option (List TrendPoint) :=
  (trendDays zone stop rounds start).map fun days => days.map fun day =>
    { day := day
      clicks :=
        s.trendClicks settings.countBots (zone.day start) (zone.day stop) owner (zone.day day) }

/-- `Overview`, which gives up after `rounds` days of the trend. -/
def Overview (ipMode : GoString) (rounds : Nat) (ctx : Context) (start stop : Instant)
    (referrerLimit recentLimit : Nat) (s : LinkStore) : Option StatsOverview :=
  (GlobalTrend zone settings rounds start stop ctx.ownerID s).map fun trend =>
    { totalLinks := (s.Summary settings.countBots ctx.ownerID).1
      totalClicks := (trend.map TrendPoint.clicks).sum
      uniqueVisitors := s.UniqueVisitors settings.countBots start stop ctx.ownerID
      trend := trend
      referrers :=
        s.GlobalReferrers loc settings.countBots start stop referrerLimit ctx.ownerID
      devices := s.DeviceBreakdown loc settings.countBots start stop ctx.ownerID
      recentClicks := s.RecentClicks settings.countBots start stop recentLimit ctx.ownerID
      ipMode := ipMode }

end StatsService

end

end Purels.Service
