import Purels.Service.Csv
import Purels.Service.Stats

/-!
# The reading endpoints

The handlers behind the `GET` routes that read links or statistics, from the
query string to the value that is rendered.  A request here has been
authenticated; its context says who asks and with which scopes.

* `Values`, `parsePaging`, `parseDateRange`, `shortCode`: the arguments.
* One definition for each handler.
* `ReadRequest`, its scope, and `serve`, the routes of `NewRouter`.
-/

namespace Purels.Http

open Go Security Store Service

/-- What the handlers have besides the request, the clock and the store. -/
structure Server where
  u : Unicode
  loc : DatabaseLocale
  zone : Zone
  links : LinkService
  settings : RuntimeSettingsInput
  ipMode : GoString
  /-- `qrcode.Encode` at the level the handler asks for. -/
  encodeQR : GoString → Nat → Option (List UInt8)
  /-- How many days of a trend are waited for. -/
  trendRounds : Nat

/-- What a handler answers.  Bounds are rendered as calendar days. -/
inductive Response where
  | insufficientScope (scope : Scope)
  | badRequest (message : String)
  | internalError (message : String)
  /-- The rendering of `writeServiceError`. -/
  | serviceError (e : ServiceError)
  | page (page : LinkPage)
  | tags (tags : List (GoString × Nat))
  | csv (records : List (List GoString))
  | link (link : Link) (shortURL : GoString)
  | png (image : List UInt8)
  | linkStats (stats : LinkStats) (first last : Int)
  | clicks (page : ClickPage) (first last : Int)
  | summary (totalLinks : Nat) (totalClicks : Int)
  | ranking (links : List LinkRank) (bottom : Bool) (first last : Int)
  | overview (stats : StatsOverview) (first last : Int)
  /-- The trend loop has not ended. -/
  | unfinished
  deriving DecidableEq

/-! ## Arguments -/

/-- `url.Values`: the pairs of a query string. -/
abbrev Values := List (GoString × GoString)

/-- `Values.Get`: the first value of a key. -/
def Values.get (query : Values) (key : String) : GoString :=
  ((query.find? fun pair => pair.1 == lit key).map Prod.snd).getD []

/-- A number of a query string, when it is one between the bounds. -/
def boundedNumber (query : Values) (key : String) (low high : Int) : Option Nat :=
  match atoi (query.get key) with
  | some n => if low ≤ n ∧ n ≤ high then some n.toNat else none
  | none => none

/-- `parsePaging`. -/
def parsePaging (query : Values) (defaultLimit maxLimit : Nat) : Nat × Nat :=
  ((boundedNumber query "limit" 1 maxLimit).getD defaultLimit,
    (boundedNumber query "offset" 0 (2 ^ 63 - 1)).getD 0)

/-- The most days a range may span. -/
def maxDays : Int := 366

/-- `parseDateRange`: midnights of the zone, both ends inclusive. -/
def parseDateRange (zone : Zone) (query : Values) (now : Instant) : Instant × Instant :=
  let parsed (key : String) : Option Instant :=
    (parseDate (query.get key)).map fun day => zone.date day 0
  let last := (parsed "to").getD (zone.date (zone.day now) 0)
  let first := (parsed "from").getD (zone.addDays last (-29))
  let first := if last < first then last else first
  if last - first > maxDays * 24 * 3600 * second then (zone.addDays last (-(maxDays - 1)), last)
  else (first, last)

variable (server : Server)

/-- `Handler.isShortHost`. -/
def isShortHost (host : GoString) : Bool :=
  host != [] &&
    ((match Url.parse server.u server.links.publicURL with
      | some base => equalFold server.u host base.hostname
      | none => false) ||
    server.settings.shortDomains.any fun configured => equalFold server.u host configured)

/-- `strings.Contains(raw, "://")`. -/
def containsScheme (raw : GoString) : Bool := decide (lit "://" <:+: raw)

/-- `shortCode`: a bare code, or the path of a URL on a host of this deployment. -/
def shortCode (raw : GoString) : Except String GoString :=
  let raw := trimSpace raw
  if raw = [] then .error "url is required"
  else if !containsScheme raw then
    if 0x2F ∈ raw then .error "url must be a short code or a short URL" else .ok raw
  else
    match Url.parse server.u raw with
    | none => .error "url is not a valid URL"
    | some parsed =>
      if !isShortHost server parsed.hostname then .error "url must point at this shortener"
      else
        let code := trimByte 0x2F parsed.path
        if code = [] ∨ 0x2F ∈ code then .error "url does not contain a short code"
        else .ok code

/-- The filter of the list and of the export. -/
def listFilter (query : Values) : ListFilter where
  search := trimSpace (query.get "search")
  status := query.get "status"
  tag := toLower server.u (trimSpace (query.get "tag"))
  sort := query.get "sort"

/-! ## Handlers -/

section

variable (ctx : Context) (now : Instant) (s : LinkStore)

/-- `ListLinks`. -/
def ListLinks (query : Values) : Response :=
  let (limit, offset) := parsePaging query 20 100
  match Service.ListLinks server.u server.loc server.links server.settings ctx
      { listFilter server query with limit := limit, offset := offset } now s with
  | .error _ => .internalError "could not list links"
  | .ok page => .page page

/-- `ListTags`. -/
def ListTags : Response := .tags (Service.ListTags server.loc ctx s)

/-- `ExportLinks`. -/
def ExportLinks (query : Values) : Response :=
  match ExportCSV server.loc server.settings ctx (listFilter server query) now s with
  | .error _ => .internalError "could not export links"
  | .ok records => .csv records

/-- `ExpandLink`. -/
def ExpandLink (query : Values) : Response :=
  match shortCode server (query.get "url") with
  | .error message => .badRequest message
  | .ok code =>
    match Expand server.loc code s with
    | .error e => .serviceError e
    | .ok link => .link link (ShortURL server.u server.links link)

/-- The handlers that load a link first. -/
def withLink (id : GoString) (render : Link → Response) : Response :=
  match Get server.loc ctx id s with
  | .error e => .serviceError e
  | .ok link => render link

/-- `GetLink`. -/
def GetLink (id : GoString) : Response :=
  withLink server ctx s id fun link => .link link (ShortURL server.u server.links link)

/-- `QRCode`. -/
def QRCode (id : GoString) (query : Values) : Response :=
  withLink server ctx s id fun link =>
    let size := (boundedNumber query "size" 64 1024).getD 320
    match server.encodeQR (ShortURL server.u server.links link) size with
    | none => .internalError "could not generate qr code"
    | some image => .png image

/-- `LinkStats`. -/
def LinkStats (id : GoString) (query : Values) : Response :=
  let (first, last) := parseDateRange server.zone query now
  withLink server ctx s id fun _ =>
    match StatsService.LinkStats server.loc server.zone server.settings id first
        (server.zone.addDays last 1) 20 s with
    | .error _ => .internalError "could not load stats"
    | .ok stats => .linkStats stats (server.zone.day first) (server.zone.day last)

/-- `LinkClicks`. -/
def LinkClicks (id : GoString) (query : Values) : Response :=
  let (first, last) := parseDateRange server.zone query now
  withLink server ctx s id fun _ =>
    let (limit, offset) := parsePaging query 20 100
    match StatsService.LinkClicks server.settings id first (server.zone.addDays last 1) limit
        offset s with
    | .error _ => .internalError "could not load the click log"
    | .ok page => .clicks page (server.zone.day first) (server.zone.day last)

/-- `Summary`. -/
def Summary : Response :=
  let stats := StatsService.Summary server.settings ctx s
  .summary stats.1 stats.2

/-- `TopLinks`. -/
def TopLinks (query : Values) : Response :=
  let limit := (boundedNumber query "limit" 1 50).getD 10
  let bottom := query.get "order" == lit "bottom"
  let (first, last) := parseDateRange server.zone query now
  let links := StatsService.Top server.loc server.zone server.settings ctx bottom limit first
    (server.zone.addDays last 1) s
  .ranking links bottom (server.zone.day first) (server.zone.day last)

/-- `Overview`. -/
def Overview (query : Values) : Response :=
  let (first, last) := parseDateRange server.zone query now
  match StatsService.Overview server.loc server.zone server.settings server.ipMode
      server.trendRounds ctx first (server.zone.addDays last 1) 10 20 s with
  | none => .unfinished
  | some stats => .overview stats (server.zone.day first) (server.zone.day last)

end

/-! ## Routes -/

/-- The reading routes, with the path parameter and the query string. -/
inductive ReadRequest where
  | listLinks (query : Values)
  | exportLinks (query : Values)
  | expandLink (query : Values)
  | getLink (id : GoString)
  | qrCode (id : GoString) (query : Values)
  | listTags
  | linkStats (id : GoString) (query : Values)
  | linkClicks (id : GoString) (query : Values)
  | summary
  | topLinks (query : Values)
  | overview (query : Values)

/-- The scope `NewRouter` requires of the route. -/
def ReadRequest.scope : ReadRequest → Scope
  | .listLinks _ | .exportLinks _ | .expandLink _ | .getLink _ | .qrCode .. | .listTags => .linksRead
  | .linkStats .. | .linkClicks .. | .summary | .topLinks _ | .overview _ => .statsRead

/-- The handler of the route. -/
def handle (ctx : Context) (now : Instant) (s : LinkStore) : ReadRequest → Response
  | .listLinks query => ListLinks server ctx now s query
  | .exportLinks query => ExportLinks server ctx now s query
  | .expandLink query => ExpandLink server s query
  | .getLink id => GetLink server ctx s id
  | .qrCode id query => QRCode server ctx s id query
  | .listTags => ListTags server ctx s
  | .linkStats id query => LinkStats server ctx now s id query
  | .linkClicks id query => LinkClicks server ctx now s id query
  | .summary => Summary server ctx s
  | .topLinks query => TopLinks server ctx now s query
  | .overview query => Overview server ctx now s query

/-- A request of an authenticated context: `RequireScope`, then the handler. -/
def serve (ctx : Context) (now : Instant) (req : ReadRequest) (s : LinkStore) : Response :=
  if !ctx.hasScope req.scope then .insufficientScope req.scope else handle server ctx now s req

end Purels.Http
