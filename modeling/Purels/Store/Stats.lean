import Purels.Store.Links

/-!
# Listings and statistics

The statements that read more than one link: the filtered lists and the
rankings, and the aggregates over the rollup and over the raw events.  Rows are
read in table order, which is what decides the order of ties.

* `visibleLinks`, and `visibleTags`, `visibleEvents`, `visibleDaily`: the rows the owner clause of a
  statement leaves.
* The lists `ListLinks`, `ExportLinks`, `TopLinks`, `ListTags`.
* The aggregates of one link and of all visible links.
* `restrict` and the lemmas `…_restrict`: a statement under an owner cannot tell
  the store from what is left of it for the owner.
-/

namespace Purels.Store

open Go

/-! ## Rows of a result -/

/-- `domain.LinkRank`. -/
structure LinkRank where
  link : Link
  clicks : Int
  shortURL : GoString := []
  deriving DecidableEq

/-- `domain.ListFilter`. -/
structure ListFilter where
  search : GoString := []
  status : GoString := []
  tag : GoString := []
  sort : GoString := []
  limit : Nat := 0
  offset : Nat := 0
  ownerID : Option Uuid := none

/-- `domain.RecentClick`. -/
structure RecentClick where
  linkID : Uuid
  aliasName : GoString
  occurredAt : Instant
  referrer : GoString
  userAgent : GoString
  deriving DecidableEq

/-- The classes of `DeviceBreakdown`. -/
inductive Device where
  | unknown
  | bot
  | tablet
  | mobile
  | desktop
  deriving DecidableEq

/-- `clickCount`: bot clicks are part of a count only when bots are counted. -/
def DailyRow.count (countBots : Bool) (row : DailyRow) : Int :=
  if countBots then row.clicks else row.clicks - row.botClicks

/-- `day >= $2::date AND day < $3::date`. -/
def DailyRow.within (first stop : Int) (row : DailyRow) : Bool := first ≤ row.day && row.day < stop

/-- `occurred_at >= $1 AND occurred_at < $2` with `notBot`. -/
def ClickEvent.counted (countBots : Bool) (start stop : Instant) (event : ClickEvent) : Bool :=
  start ≤ event.occurredAt && event.occurredAt < stop && (countBots || !event.isBot)

/-- The groups of `GROUP BY key` with their `COUNT(*)`. -/
def groupCount {κ : Type*} [DecidableEq κ] (keys : List κ) : List (κ × Nat) :=
  keys.dedup.map fun key => (key, keys.count key)

/-- `LIMIT … OFFSET …`. -/
def slice {α : Type*} (limit offset : Nat) (rows : List α) : List α := (rows.drop offset).take limit

namespace LinkStore

variable (loc : DatabaseLocale) (countBots : Bool) (s : LinkStore)

/-- The live links of the owner; of everyone when there is none. -/
def visibleLinks (owner : Option Uuid) : List LinkRow :=
  s.links.filter fun row => row.live && row.visibleTo owner

/-- `click_events e JOIN links l ON l.id=e.link_id`, narrowed to the owner. -/
def visibleEvents (owner : Option Uuid) : List (ClickEvent × LinkRow) :=
  s.events.flatMap fun event =>
    ((s.visibleLinks owner).filter fun row => row.id == event.linkID).map fun row => (event, row)

/-- The tag names of `link_tags lt JOIN links l ON l.id=lt.link_id`, narrowed to
the owner. -/
def visibleTags (owner : Option Uuid) : List GoString :=
  s.linkTags.flatMap fun t =>
    ((s.visibleLinks owner).filter fun row => row.id == t.1).map fun _ => t.2

/-- `link_click_daily d JOIN links l ON l.id=d.link_id`, narrowed to the owner. -/
def visibleDaily (owner : Option Uuid) : List DailyRow :=
  s.daily.flatMap fun row =>
    ((s.visibleLinks owner).filter fun link => link.id == row.linkID).map fun _ => row

/-! ## Lists -/

/-- The rollup rows of one link. -/
def dailyOf (id : Uuid) : List DailyRow := s.daily.filter fun row => row.linkID == id

/-- `COALESCE(c.clicks,0)` of `linkClickJoin`. -/
def clicksOf (id : Uuid) : Int := ((s.dailyOf id).map (DailyRow.count countBots)).sum

/-- The condition of `buildLinkWhere`. -/
def matchesFilter (filter : ListFilter) (now : Instant) (row : LinkRow) : Bool :=
  (filter.search == [] || loc.ilike row.aliasName filter.search ||
    loc.ilike row.destinationURL filter.search || loc.ilike row.title filter.search) &&
  (filter.tag == [] || s.linkTags.contains (row.id, filter.tag)) &&
  (if filter.status = lit "active" then row.status == .active
  else if filter.status = lit "disabled" then row.status == .disabled
  else if filter.status = lit "expired" then row.expiresAt.any (· ≤ now)
  else true)

/-- The text parameters of `buildLinkWhere` can be bound. -/
def bindable (filter : ListFilter) : Bool := storableText filter.search && storableText filter.tag

/-- `linkOrder`: whether a row with its clicks may stand before another. -/
def linkOrder (sort : GoString) (a b : LinkRow × Int) : Bool :=
  if sort = lit "created_at_asc" then a.1.createdAt ≤ b.1.createdAt
  else if sort = lit "alias_asc" then loc.collate a.1.aliasName b.1.aliasName
  else if sort = lit "alias_desc" then loc.collate b.1.aliasName a.1.aliasName
  else if sort = lit "clicks_desc" then b.2 < a.2 || (a.2 == b.2 && b.1.createdAt ≤ a.1.createdAt)
  else if sort = lit "clicks_asc" then a.2 < b.2 || (a.2 == b.2 && b.1.createdAt ≤ a.1.createdAt)
  else b.1.createdAt ≤ a.1.createdAt

/-- `linkSelectColumns`, as `scanLinkRanks` reads them: no rules. -/
def toRank (entry : LinkRow × Int) : LinkRank where
  link := { s.toLink loc entry.1 with rules := [] }
  clicks := entry.2

/-- The links a filter leaves, in its order. -/
def filteredLinks (filter : ListFilter) (now : Instant) : List (LinkRow × Int) :=
  (((s.visibleLinks filter.ownerID).filter (s.matchesFilter loc filter now)).map fun row =>
    (row, s.clicksOf countBots row.id)).insertionSort fun a b => linkOrder loc filter.sort a b

/-- `ListLinks`: a page, and the number of all matches. -/
def ListLinks (filter : ListFilter) (now : Instant) :
    Except ServiceError (List LinkRank × Nat) :=
  if !bindable filter then .error .database
  else
    let found := s.filteredLinks loc countBots filter now
    .ok ((slice filter.limit filter.offset found).map (s.toRank loc), found.length)

/-- `ExportLinks`. -/
def ExportLinks (filter : ListFilter) (limit : Nat) (now : Instant) :
    Except ServiceError (List LinkRank) :=
  if !bindable filter then .error .database
  else .ok (((s.filteredLinks loc countBots filter now).take limit).map (s.toRank loc))

/-- `TopLinks`: links without a rollup row in the range are left out. -/
def TopLinks (bottom : Bool) (limit : Nat) (first stop : Int) (owner : Option Uuid) :
    List LinkRank :=
  let clicked := (s.visibleLinks owner).filterMap fun row =>
    let days := (s.dailyOf row.id).filter (DailyRow.within first stop)
    if days = [] then none else some (row, (days.map (DailyRow.count countBots)).sum)
  let sorted := clicked.insertionSort fun a b =>
    linkOrder loc (if bottom then lit "clicks_asc" else lit "clicks_desc") a b
  (sorted.take limit).map (s.toRank loc)

/-- `ListTags`: the tags of visible links with their counts, most used first. -/
def ListTags (owner : Option Uuid) : List (GoString × Nat) :=
  (groupCount (s.visibleTags owner)).insertionSort fun a b =>
    b.2 < a.2 || (a.2 == b.2 && loc.collate a.1 b.1)

/-! ## One link -/

/-- `LinkTotalClicks`. -/
def LinkTotalClicks (id : Uuid) : Int := s.clicksOf countBots id

/-- `DailyStats`. -/
def DailyStats (id : Uuid) (first stop : Int) : List (Int × Int) :=
  (((s.dailyOf id).filter (DailyRow.within first stop)).map fun row =>
    (row.day, row.count countBots)).insertionSort fun a b => a.1 ≤ b.1

/-- `ORDER BY clicks DESC, referrer ASC`; NULL comes last. -/
def referrerOrder (a b : Option GoString × Nat) : Bool :=
  b.2 < a.2 || (a.2 == b.2 &&
    match a.1, b.1 with
    | some a, some b => loc.collate a b
    | _, none => true
    | none, some _ => false)

/-- The end of `LinkReferrers` and `GlobalReferrers`. -/
def referrerStats (limit : Nat) (referrers : List (Option GoString)) : List (GoString × Nat) :=
  (((groupCount referrers).insertionSort fun a b => referrerOrder loc a b).take limit).map
    fun stat => (stat.1.getD [], stat.2)

/-- `LinkReferrers`. -/
def LinkReferrers (id : Uuid) (start stop : Instant) (limit : Nat) : List (GoString × Nat) :=
  referrerStats loc limit
    ((s.events.filter fun e => e.linkID == id && e.counted countBots start stop).map
      ClickEvent.referrer)

/-- The columns of the raw click log. -/
def toRecentClick (entry : ClickEvent × LinkRow) : RecentClick where
  linkID := entry.1.linkID
  aliasName := entry.2.aliasName
  occurredAt := entry.1.occurredAt
  referrer := entry.1.referrer.getD []
  userAgent := entry.1.userAgent.getD []

/-- `ORDER BY e.occurred_at DESC`. -/
def newestFirst (events : List (ClickEvent × LinkRow)) : List (ClickEvent × LinkRow) :=
  events.insertionSort fun a b => b.1.occurredAt ≤ a.1.occurredAt

/-- `LinkClicks`, which joins the link whoever owns it. -/
def LinkClicks (id : Uuid) (start stop : Instant) (limit offset : Nat) : List RecentClick × Nat :=
  let found := (s.visibleEvents none).filter fun entry =>
    entry.1.linkID == id && entry.1.counted countBots start stop
  ((slice limit offset (newestFirst found)).map toRecentClick, found.length)

/-! ## All visible links -/

/-- `Summary`. -/
def Summary (owner : Option Uuid) : Nat × Int :=
  ((s.visibleLinks owner).length, ((s.visibleDaily owner).map (DailyRow.count countBots)).sum)

/-- The rollup of a day in `GlobalTrend`; a day the query does not return is 0. -/
def trendClicks (first stop : Int) (owner : Option Uuid) (day : Int) : Int :=
  (((s.visibleDaily owner).filter fun row => row.within first stop && row.day == day).map
    (DailyRow.count countBots)).sum

/-- The events of the visible links in a range. -/
def countedEvents (start stop : Instant) (owner : Option Uuid) : List (ClickEvent × LinkRow) :=
  (s.visibleEvents owner).filter fun entry => entry.1.counted countBots start stop

/-- `UniqueVisitors`. -/
def UniqueVisitors (start stop : Instant) (owner : Option Uuid) : Nat :=
  ((s.countedEvents countBots start stop owner).filterMap fun entry => entry.1.ipHash).dedup.length

/-- `GlobalReferrers`. -/
def GlobalReferrers (start stop : Instant) (limit : Nat) (owner : Option Uuid) :
    List (GoString × Nat) :=
  referrerStats loc limit
    ((s.countedEvents countBots start stop owner).map fun entry => entry.1.referrer)

/-- The class of an event in `DeviceBreakdown`. -/
def deviceOf (event : ClickEvent) : Device :=
  let agent := event.userAgent.getD []
  let names (needle : String) : Bool := loc.ilike agent (lit needle)
  if agent = [] then .unknown
  else if event.isBot then .bot
  else if names "ipad" || names "tablet" then .tablet
  else if names "mobile" || names "android" || names "iphone" || names "ipod" then .mobile
  else .desktop

/-- `DeviceBreakdown`. -/
def DeviceBreakdown (start stop : Instant) (owner : Option Uuid) : List (Device × Nat) :=
  (groupCount ((s.countedEvents countBots start stop owner).map fun entry =>
    deviceOf loc entry.1)).insertionSort fun a b => b.2 ≤ a.2

/-- `RecentClicks`. -/
def RecentClicks (start stop : Instant) (limit : Nat) (owner : Option Uuid) : List RecentClick :=
  ((newestFirst (s.countedEvents countBots start stop owner)).take limit).map toRecentClick

end LinkStore

end Purels.Store
