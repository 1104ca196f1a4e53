import Purels.Go.Fields
import Purels.Go.Floats

/-!
# The language of a preview page

`preferredLang`, which picks a language from the `Accept-Language` header of a request.

* `parseLanguageTag`: an entry of the header, its tag and its quality.
* `matchLanguage`: the language of a tag.
* `preferredLang`: the entry of the highest quality.
-/

namespace Purels.Http

open Go

def langEnglish : GoString := lit "en"

def langChinese : GoString := lit "zh-CN"

def defaultLang : GoString := langEnglish

section

variable (u : Unicode)

/-- The loop over the parameters of an entry, and none when a quality does not parse. -/
def paramsQuality : List GoString → Float64 → Option Float64
  | [], quality => some quality
  | param :: params, quality =>
    let (name, value) := cut 0x3D (trimSpace param)
    if 0x3D ∉ trimSpace param ∨ !equalFold u (trimSpace name) (lit "q") then
      paramsQuality params quality
    else
      match ParseFloat (trimSpace value) with
      | none => none
      | some parsed => paramsQuality params parsed

/-- `parseLanguageTag`. -/
def parseLanguageTag (part : GoString) : GoString × Float64 :=
  let part := trimSpace part
  if part = [] then ([], .finite 0)
  else
    let (tag, params) := cut 0x3B part
    let quality :=
      if params = [] then some (.finite 1) else paramsQuality u (Go.split 0x3B params) (.finite 1)
    match quality with
    | none => ([], .finite 0)
    | some quality => (trimSpace tag, quality)

/-- `matchLanguage`: nothing for a language that is not spoken. -/
def matchLanguage (tag : GoString) : GoString :=
  let primary := toLower u (cut 0x2D tag).1
  if primary = lit "zh" then langChinese
  else if primary = lit "en" then langEnglish
  else []

/-- The body of the loop of `preferredLang`, on the best entry so far. -/
def considerPart (best : GoString × Float64) (part : GoString) : GoString × Float64 :=
  let (tag, quality) := parseLanguageTag u part
  if tag = [] ∨ quality.le (.finite 0) then best
  else
    let language := matchLanguage u tag
    if language = [] ∨ quality.le best.2 then best else (language, quality)

/-- `preferredLang`. -/
def preferredLang (acceptLanguage : GoString) : GoString :=
  ((Go.split 0x2C acceptLanguage).foldl (considerPart u) (defaultLang, .finite (-1))).1

end

end Purels.Http
