import Purels.Service.Links
import Purels.Store.Stats

/-!
# CSV export and import

`ExportCSV` up to the CSV writer, and `ImportCSV` over what the CSV reader hands
it, one `Read` a physical record.

* `splitTags`, `fieldAt`: the cells.
* `columnsOf`: columns are matched by header name, the last of a name wins.
* `rowRequest` and `importRows`: the request a row makes, and the loop over rows.
-/

namespace Purels.Service

open Go Security Store

def maxImportRows : Nat := 10000
def maxReportErrors : Nat := 50

/-- What one `reader.Read()` returns before the end of the file. -/
inductive Read where
  | record (fields : List GoString)
  | failed (message : GoString)

/-- The reason of a rejected row.  Only a service error is passed through, and a
database error of its kind is worded generically. -/
inductive RowReason where
  | unreadable (message : GoString)
  | stopped
  | redirectCode
  | interstitialSeconds
  | service (e : ServiceError)
  | notSaved
  deriving DecidableEq

/-- `domain.ImportError`. -/
structure ImportError where
  line : Nat
  aliasName : GoString
  reason : RowReason
  deriving DecidableEq

/-- `domain.ImportReport`. -/
structure ImportReport where
  created : Nat := 0
  failed : Nat := 0
  errors : List ImportError := []
  deriving DecidableEq

/-- `failRow`. -/
def failRow (report : ImportReport) (line : Nat) (aliasName : GoString) (reason : RowReason) :
    ImportReport where
  created := report.created
  failed := report.failed + 1
  errors :=
    if report.errors.length < maxReportErrors then
      report.errors ++ [⟨line, aliasName, reason⟩]
    else report.errors

/-- `rowError`. -/
def rowError (e : ServiceError) : RowReason := if e = .database then .notSaved else .service e

/-! ## Export -/

def maxExportRows : Nat := 50000

/-- `exportHeader`. -/
def exportHeader : List GoString :=
  [lit "alias", lit "destination_url", lit "title", lit "tags", lit "redirect_code",
    lit "interstitial_seconds"]

/-- `strconv.Itoa`. -/
def itoa (n : Int) : GoString := lit (toString n)

/-- The row of a link. -/
def exportRow (rank : LinkRank) : List GoString :=
  [rank.link.aliasName, rank.link.destinationURL, rank.link.title,
    [0x7C].intercalate rank.link.tags, itoa rank.link.redirectCode,
    itoa rank.link.interstitialSeconds]

/-- `ExportCSV`: the records handed to the CSV writer. -/
def ExportCSV (loc : DatabaseLocale) (settings : RuntimeSettingsInput) (ctx : Context) (filter : ListFilter)
    (now : Instant) (s : LinkStore) : Except ServiceError (List (List GoString)) :=
  match s.ExportLinks loc settings.countBots { filter with ownerID := ctx.ownerID } maxExportRows
      now with
  | .error e => .error e
  | .ok ranks => .ok (exportHeader :: ranks.map exportRow)

/-! ## Cells -/

/-- `int16(value)`. -/
def toInt16 (value : Int) : Int := value.bmod (2 ^ 16)

/-- `strings.FieldsFunc`: the maximal runs of runes outside the separators. -/
def fieldsFunc (isSeparator : Nat → Bool) (s : GoString) : List GoString :=
  ((runes s).splitOnP fun r => isSeparator r.code).filterMap fun field =>
    if field = [] then none else some (ofRunes field)

/-- `splitTags`. -/
def splitTags (raw : GoString) : List GoString :=
  if trimSpace raw = [] then []
  else fieldsFunc (fun c => c == 0x7C || c == 0x2C || c == 0x3B || isSpace c) raw

/-- `fieldAt`; a column the file omits reads as empty. -/
def fieldAt (record : List GoString) (column : Option Nat) : GoString :=
  match column with
  | some i => trimSpace (record.getD i [])
  | none => []

/-- `isBlankRow`. -/
def isBlankRow (record : List GoString) : Bool := record.all fun field => trimSpace field == []

/-! ## Rows -/

/-- The positions of the columns the importer knows. -/
structure Columns where
  destination : Nat
  aliasName : Option Nat
  title : Option Nat
  tags : Option Nat
  redirectCode : Option Nat
  interstitial : Option Nat

def byteOrderMark : GoString := [0xEF, 0xBB, 0xBF]

/-- The accepted spellings of the destination column. -/
def destinationNames : List GoString :=
  [lit "destination_url", lit "url", lit "long_url", lit "destination"]

section

variable (u : Unicode) (loc : DatabaseLocale)

/-- The key of a header cell, its byte order mark taken off. -/
def columnKey (name : GoString) : GoString :=
  let bare := if byteOrderMark <+: name then name.drop byteOrderMark.length else name
  toLower u (trimSpace bare)

/-- `columns[name]`: the last header cell with this key. -/
def columnIndex (header : List GoString) (name : GoString) : Option Nat :=
  ((header.zipIdx.filter fun cell => columnKey u cell.1 == name).getLast?).map Prod.snd

/-- The columns of a file, unless it has no destination column. -/
def columnsOf (header : List GoString) : Option Columns :=
  (destinationNames.findSome? (columnIndex u header)).map fun destination =>
    { destination := destination
      aliasName := columnIndex u header (lit "alias")
      title := columnIndex u header (lit "title")
      tags := columnIndex u header (lit "tags")
      redirectCode := columnIndex u header (lit "redirect_code")
      interstitial := columnIndex u header (lit "interstitial_seconds") }

/-- The redirect code of a row; blank is the default. -/
def rowRedirectCode (raw : GoString) : Option Int :=
  if raw = [] then some 0 else (atoi raw).map toInt16

/-- The delay of a row; blank is the default. -/
def rowInterstitial (raw : GoString) : Option (Option Int) :=
  if raw = [] then some none
  else
    match atoi raw with
    | some seconds =>
      if seconds < 0 ∨ seconds > MaxInterstitialSeconds then none else some (some seconds)
    | none => none

/-- The request of a row, or the reason it is rejected for. -/
def rowRequest (columns : Columns) (record : List GoString) :
    Except RowReason CreateLinkRequest :=
  match rowRedirectCode (fieldAt record columns.redirectCode) with
  | none => .error .redirectCode
  | some redirectCode =>
    match rowInterstitial (fieldAt record columns.interstitial) with
    | none => .error .interstitialSeconds
    | some interstitialSeconds =>
      .ok {
        destinationURL := fieldAt record (some columns.destination)
        aliasName := fieldAt record columns.aliasName
        title := fieldAt record columns.title
        tags := splitTags (fieldAt record columns.tags)
        redirectCode := redirectCode
        interstitialSeconds := interstitialSeconds }

/-- A row whose two numbers are read. -/
theorem rowRequest_ok (columns : Columns) {record : List GoString} {code : Int}
    {delay : Option Int}
    (hcode : rowRedirectCode (fieldAt record columns.redirectCode) = some code)
    (hdelay : rowInterstitial (fieldAt record columns.interstitial) = some delay) :
    rowRequest columns record = .ok
      { destinationURL := fieldAt record (some columns.destination)
        aliasName := fieldAt record columns.aliasName
        title := fieldAt record columns.title
        tags := splitTags (fieldAt record columns.tags)
        redirectCode := code
        interstitialSeconds := delay } := by
  simp only [rowRequest, hcode, hdelay]

/-- What the create call of one row takes from outside, the runtime snapshot
included. -/
structure RowDraws where
  settings : RuntimeSettingsInput
  now : Instant
  draws : Fin aliasAttempts → Draw

/-- The loop of `ImportCSV`; `line` is that of the record last read. -/
def importRows (svc : LinkService) (ctx : Context) (columns : Columns)
    (outside : Nat → RowDraws) : Nat → ImportReport → List Read → LinkStore → ImportReport × LinkStore
  | _, report, [], s => (report, s)
  | line, report, .failed message :: rows, s =>
    importRows svc ctx columns outside (line + 1)
      (failRow report (line + 1) [] (.unreadable message)) rows s
  | line, report, .record record :: rows, s =>
    if report.created + report.failed ≥ maxImportRows then
      (failRow report (line + 1) [] .stopped, s)
    else if isBlankRow record then
      importRows svc ctx columns outside (line + 1) report rows s
    else
      let aliasName := fieldAt record columns.aliasName
      match rowRequest columns record with
      | .error reason =>
        importRows svc ctx columns outside (line + 1)
          (failRow report (line + 1) aliasName reason) rows s
      | .ok req =>
        match Create u loc svc (outside line).settings ctx req (outside line).now
            (outside line).draws s with
        | (.error e, s) =>
          importRows svc ctx columns outside (line + 1)
            (failRow report (line + 1) aliasName (rowError e)) rows s
        | (.ok _, s) =>
          importRows svc ctx columns outside (line + 1)
            { report with created := report.created + 1 } rows s

/-- `ImportCSV`. -/
def ImportCSV (svc : LinkService) (ctx : Context) (reads : List Read) (outside : Nat → RowDraws)
    (s : LinkStore) :
    Except ServiceError ImportReport × LinkStore :=
  match reads with
  | [] => (.error (.invalid "the file is empty"), s)
  | .failed _ :: _ => (.error (.invalid "could not read the header row"), s)
  | .record header :: rows =>
    match columnsOf u header with
    | none => (.error (.invalid "the file needs a \"destination_url\" column"), s)
    | some columns =>
      let (report, s) := importRows u loc svc ctx columns outside 1 {} rows s
      (.ok report, s)

end

end Purels.Service
