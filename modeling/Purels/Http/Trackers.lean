import Purels.Go.Json
import Purels.Service.Analytics

/-!
# Tracker scripts

The script elements that the pages of the server carry, built from the tracking settings.

* `Tracker`: one provider with the values its snippet is built from.
* `trackers`: those of a configuration; `emitted`: those of one that passes the check.
* `trackerScripts`: the elements, one after the other.
-/

namespace Purels.Http

open Go Service

/-- A provider that is switched on, with its values. -/
inductive Tracker where
  | ga4 (measurementID : GoString)
  | gtm (containerID : GoString)
  | googleTag (tagID : GoString)
  | matomo (baseURL siteID : GoString)
  | clarity (projectID : GoString)
  deriving DecidableEq

/-! ## Snippets -/

/-- `scriptElement`. -/
def scriptElement (id : String) (snippet : GoString) : GoString :=
  lit "<script id=\"" ++ lit id ++ lit "\">" ++ snippet ++ lit "</script>"

/-- `jsString`: marshalling a string does not fail. -/
def jsString (value : GoString) : GoString := marshalString value

/-- `gtagSnippet`. -/
def gtagSnippet (tagID : GoString) : GoString :=
  lit "window.dataLayer=window.dataLayer||[];" ++
  lit "function gtag()\x7bwindow.dataLayer.push(arguments);\x7d" ++
  lit "window.gtag=gtag;" ++
  lit "gtag('js',new Date());" ++
  lit "gtag('config'," ++ jsString tagID ++ lit ");" ++
  lit "(function()\x7bvar s=document.createElement('script');s.async=true;" ++
  lit "s.src='https://www.googletagmanager.com/gtag/js?id='+" ++ jsString tagID ++ lit ";" ++
  lit "document.head.appendChild(s);\x7d)();"

/-- `gtmSnippet`. -/
def gtmSnippet (containerID : GoString) : GoString :=
  lit "(function(w,d,s,l,i)\x7bw[l]=w[l]||[];w[l].push(\x7b'gtm.start':new Date().getTime(),event:'gtm.js'\x7d);" ++
  lit "var f=d.getElementsByTagName(s)[0],j=d.createElement(s),dl=l!=='dataLayer'?'&l='+l:'';" ++
  lit "j.async=true;j.src='https://www.googletagmanager.com/gtm.js?id='+i+dl;" ++
  lit "f.parentNode.insertBefore(j,f);\x7d)(window,document,'script','dataLayer'," ++
  jsString containerID ++ lit ");"

/-- `matomoSnippet`. -/
def matomoSnippet (baseURL siteID : GoString) : GoString :=
  lit "var _paq=window._paq=window._paq||[];" ++
  lit "_paq.push(['setTrackerUrl'," ++ jsString (baseURL ++ lit "/matomo.php") ++ lit "]);" ++
  lit "_paq.push(['setSiteId'," ++ jsString siteID ++ lit "]);" ++
  lit "_paq.push(['trackPageView']);" ++
  lit "_paq.push(['enableLinkTracking']);" ++
  lit "(function()\x7bvar d=document,g=d.createElement('script'),s=d.getElementsByTagName('script')[0];" ++
  lit "g.async=true;g.src=" ++ jsString (baseURL ++ lit "/matomo.js") ++
  lit ";s.parentNode.insertBefore(g,s);\x7d)();"

/-- `claritySnippet`. -/
def claritySnippet (projectID : GoString) : GoString :=
  lit "(function(c,l,a,r,i,t,y)\x7bc[a]=c[a]||function()\x7b(c[a].q=c[a].q||[]).push(arguments)\x7d;" ++
  lit "t=l.createElement(r);t.async=1;t.src='https://www.clarity.ms/tag/'+i;" ++
  lit "y=l.getElementsByTagName(r)[0];y.parentNode.insertBefore(t,y);\x7d)" ++
  lit "(window,document,'clarity','script'," ++ jsString projectID ++ lit ");"

/-- The element of a tracker. -/
def Tracker.element : Tracker → GoString
  | .ga4 measurementID => scriptElement "purels-analytics-ga4" (gtagSnippet measurementID)
  | .gtm containerID => scriptElement "purels-analytics-gtm" (gtmSnippet containerID)
  | .googleTag tagID => scriptElement "purels-analytics-google-tag" (gtagSnippet tagID)
  | .matomo baseURL siteID => scriptElement "purels-analytics-matomo" (matomoSnippet baseURL siteID)
  | .clarity projectID => scriptElement "purels-analytics-clarity" (claritySnippet projectID)

/-! ## Elements -/

/-- A tracker whose value is not empty. -/
def whenSet (value : GoString) (tracker : Tracker) : List Tracker :=
  if value ≠ [] then [tracker] else []

/-- The trackers of a configuration, in the order they are written. -/
def trackers (settings : AnalyticsSettings) : List Tracker :=
  whenSet settings.ga4MeasurementID (.ga4 settings.ga4MeasurementID) ++
  whenSet settings.gtmContainerID (.gtm settings.gtmContainerID) ++
  whenSet settings.googleTagID (.googleTag settings.googleTagID) ++
  whenSet settings.matomoURL (.matomo settings.matomoURL settings.matomoSiteID) ++
  whenSet settings.clarityProjectID (.clarity settings.clarityProjectID)

section

variable (u : Unicode)

/-- The trackers that are written: those of a configuration that passes the check. -/
def emitted (settings : AnalyticsSettings) : List Tracker :=
  match ValidateAnalyticsSettings u settings with
  | .error _ => []
  | .ok _ => trackers settings

/-- `trackerScripts`. -/
def trackerScripts (settings : AnalyticsSettings) : GoString :=
  (emitted u settings).flatMap Tracker.element

end

theorem mem_whenSet {value : GoString} {tracker written : Tracker} :
    written ∈ whenSet value tracker ↔ value ≠ [] ∧ written = tracker := by
  unfold whenSet
  by_cases h : value = []
  · rw [if_neg (not_not.mpr h)]
    exact ⟨fun hmem => absurd hmem List.not_mem_nil, fun hmem => absurd h hmem.1⟩
  · rw [if_pos h, List.mem_singleton]
    exact ⟨fun heq => ⟨h, heq⟩, fun heq => heq.2⟩

/-- A tracker is written for a configuration that may be rendered and has its value. -/
theorem mem_emitted {u : Unicode} {settings : AnalyticsSettings} {tracker : Tracker} :
    tracker ∈ emitted u settings ↔ Renderable settings ∧ tracker ∈ trackers settings := by
  unfold emitted
  cases hvalid : ValidateAnalyticsSettings u settings with
  | error e =>
    refine ⟨fun h => absurd h List.not_mem_nil, fun h => ?_⟩
    rw [(ValidateAnalyticsSettings_iff u).mpr h.1] at hvalid
    cases hvalid
  | ok _ =>
    exact ⟨fun h => ⟨(ValidateAnalyticsSettings_iff u).mp hvalid, h⟩, fun h => h.2⟩

end Purels.Http
