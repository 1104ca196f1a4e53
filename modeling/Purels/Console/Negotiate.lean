import Purels.Js.Numbers

/-!
# The language of the console

`preferredLocale`, which picks a locale from the same header.

* `parseTag`: an entry of the header, its tag and its quality.
* `matchTag`: the locale of a tag.
* `preferredLocale`: the entry of the highest quality.
-/

namespace Purels.Console

open Go Js

/-- A string of the source. -/
def text (s : String) : JsString := latin1 (lit s)

/-- `LOCALES`. -/
def locales : List JsString := [text "en", text "zh-CN"]

/-- `DEFAULT_LOCALE`. -/
def defaultLocale : JsString := text "en"

/-- `tag.split("-")[0].toLowerCase()`. -/
def primarySubtag (tag : JsString) : JsString := toLowerCase (tag.takeWhile (· != 0x2D))

/-- `matchTag`: nothing for a language that is not shipped. -/
def matchTag (tag : JsString) : JsString :=
  (locales.find? fun locale => primarySubtag locale == primarySubtag tag).getD []

/-- The loop over the parameters of an entry, and none when a quality is not finite. -/
def paramsQuality : List JsString → ℚ → Option ℚ
  | [], quality => some quality
  | param :: params, quality =>
    let name := param.takeWhile (· != 0x3D)
    let value := (param.dropWhile (· != 0x3D)).drop 1
    if 0x3D ∉ param ∨ toLowerCase (trim name) ≠ text "q" then paramsQuality params quality
    else
      match number (trim value) with
      | none => none
      | some parsed => paramsQuality params parsed

/-- `parseTag`. -/
def parseTag (part : JsString) : JsString × ℚ :=
  let trimmed := trim part
  if trimmed = [] then ([], 0)
  else
    match Js.split 0x3B trimmed with
    | [] => ([], 0)
    | tag :: params =>
      match paramsQuality params 1 with
      | none => ([], 0)
      | some quality => (trim tag, quality)

/-- The body of the loop of `preferredLocale`, on the best entry so far. -/
def considerTag (best : JsString × ℚ) (part : JsString) : JsString × ℚ :=
  let (tag, quality) := parseTag part
  if tag = [] ∨ quality ≤ 0 then best
  else
    let locale := matchTag tag
    if locale = [] ∨ quality ≤ best.2 then best else (locale, quality)

/-- `preferredLocale`. -/
def preferredLocale (acceptLanguage : JsString) : JsString :=
  ((Js.split 0x2C acceptLanguage).foldl considerTag (defaultLocale, -1)).1

end Purels.Console
