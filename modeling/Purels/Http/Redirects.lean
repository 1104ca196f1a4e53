import Purels.Go.Url
import Purels.Http.Language
import Purels.Http.MergeQuery
import Purels.Http.Router
import Purels.Security.SafeHttp
import Purels.Service.Clicks
import Purels.Service.LinkCalls
import Purels.Service.Rules

/-!
# The short link handler

`Handler.Redirect` and everything it answers: a redirect, the page of a link with a delay, the
preview page and the fallback.  Calls follow one another.

* `Site`: what the handler reads and writes.
* `Visit`: a request, and `ClientIP`.
* `Resolve`: the call of `LinkService`, start to end.
* `destination`: where a link sends a visit.
* `Redirect` and `serveAll`: one request, and one after the other.
-/

namespace Purels.Http

open Go Security Store Service

/-! ## State and requests -/

/-- The link tables with the redirect cache, and the clicks. -/
structure Site where
  world : World
  events : List ClickEvent

/-- The click tables as the insert of a click sees them. -/
def Site.clickTables (site : Site) : ClickTables where
  links := site.world.store.links.map LinkRow.id
  events := site.events

/-- A request that the routes of the short links hand over, with the settings and the clock it is
answered under, and the identifier its click draws. -/
structure Visit where
  method : Method
  path : GoString
  rawQuery : GoString := []
  userAgent : GoString := []
  referer : GoString := []
  acceptLanguage : GoString := []
  cfConnectingIP : GoString := []
  forwardedFor : GoString := []
  remoteAddr : GoString := []
  settings : RuntimeSettingsInput := {}
  now : Instant
  clickID : Uuid

/-- `middleware.ClientIP`. -/
def ClientIP (visit : Visit) : GoString :=
  if (parseIP (trimSpace visit.cfConnectingIP)).isSome then trimSpace visit.cfConnectingIP
  else
    let last := trimSpace ((split 0x2C visit.forwardedFor).getLastD [])
    if visit.forwardedFor ≠ [] ∧ last ≠ [] then last
    else
      match SplitHostPort visit.remoteAddr with
      | .ok (host, _) => host
      | .error _ => visit.remoteAddr

/-- What `renderGalleryPage` fills in, apart from the artwork. -/
structure Page where
  language : GoString
  aliasName : GoString
  destination : GoString
  domain : GoString
  interstitial : Bool
  seconds : Int
  deriving DecidableEq

inductive PageAnswer where
  | notFound
  /-- `http.Redirect`. -/
  | redirect (url : GoString) (code : Int)
  | page (page : Page)
  /-- The headers of a page, without the page. -/
  | headers
  deriving DecidableEq

/-- The address that an answer leads to, or shows. -/
def PageAnswer.url : PageAnswer → Option GoString
  | .redirect url _ => some url
  | .page shown => some shown.destination
  | _ => none

/-! ## Resolving -/

section

variable (u : Unicode) (loc : DatabaseLocale) (localOffset : Instant → Int)
  (hash : GoString → Option (List UInt8))

/-- `LinkService.Resolve`. -/
def Resolve (w : World) (code : GoString) (now : Instant) : Except ServiceError Link × World :=
  match w.cache code with
  | some link => (if isUsable link now then .ok link else .error .notFound, w)
  | none =>
    match w.store.GetLinkByAlias loc code with
    | .error e => (.error e, w)
    | .ok link =>
      if !isUsable link now then (.error .notFound, w) else (.ok link, w.setLink localOffset link)

/-! ## Answering -/

/-- The rule that fires or the link's own address, with the query of the visit when that is
forwarded. -/
def destination (visit : Visit) (link : Link) : GoString × Int :=
  let target := (MatchRule u link.redirectCode visit.userAgent (link.rules.map decoded)).getD
    (link.destinationURL, link.redirectCode)
  if visit.settings.forwardQuery then (mergeQuery target.1 visit.rawQuery, target.2) else target

/-- `notFound`. -/
def notFound (visit : Visit) : PageAnswer :=
  if visit.settings.fallbackURL = [] then .notFound else .redirect visit.settings.fallbackURL 302

/-- `renderGalleryPage`, for a request that wants more than headers. -/
def galleryPage (visit : Visit) (aliasName destination : GoString) (interstitial : Bool)
    (seconds : Int) : PageAnswer :=
  if visit.method = .head then .headers
  else
    .page {
      language :=
        if preferredLang u visit.acceptLanguage = langChinese then langChinese else langEnglish
      aliasName, destination
      domain :=
        match Url.parse u destination with
        | some url => if url.host ≠ [] then url.host else destination
        | none => destination
      interstitial
      seconds := if interstitial then seconds else 0 }

/-- What a link answers: the page of a delay, or the redirect. -/
def visitAnswer (visit : Visit) (link : Link) : PageAnswer :=
  let target := destination u visit link
  if 0 < link.interstitialSeconds then
    galleryPage u visit link.aliasName target.1 true link.interstitialSeconds
  else .redirect target.1 target.2

/-- `preview`. -/
def previewAnswer (visit : Visit) (link : Link) : PageAnswer :=
  galleryPage u visit link.aliasName (destination u visit link).1 false 0

/-- `Handler.Redirect`. -/
def Redirect (visit : Visit) (site : Site) : PageAnswer × Site :=
  match redirectLookup visit.path with
  | .notFound => (notFound visit, site)
  | .preview code =>
    let (found, world) := Resolve loc localOffset site.world code visit.now
    match found with
    | .error _ => (notFound visit, { site with world })
    | .ok link => (previewAnswer u visit link, { site with world })
  | .resolve code =>
    let (found, world) := Resolve loc localOffset site.world code visit.now
    match found with
    | .error _ => (notFound visit, { site with world })
    | .ok link =>
      let site := { site with world }
      let clicked :=
        if visit.method = .head then site.clickTables
        else
          RecordClick u hash link (ClientIP visit) visit.userAgent visit.referer visit.clickID
            visit.now site.clickTables
      (visitAnswer u visit link, { site with events := clicked.events })

/-- One request after the other. -/
def serveAll : Site → List Visit → List PageAnswer × Site
  | site, [] => ([], site)
  | site, visit :: visits =>
    let (answer, site) := Redirect u loc localOffset hash visit site
    let (answers, site) := serveAll site visits
    (answer :: answers, site)

end

end Purels.Http
