import Purels.Properties.ImportReport
import Purels.Service.LinkSpecs

/-!
# What a redirect code cell means

The `redirect_code` cell of an imported row against the code of the link that the row makes.
`Atoi` reads the cell, `int16` narrows what it reads, and only then `Create` checks the range.

* `cellCode`: the code that a cell stands for.
* `importRow_code`: a row that is not refused has a cell with an accepted code once narrowed.
* `CellMeans`, and `cellMeans_iff`: no cell but one that wraps around is misread.
* `code_wrapped`: 65837 makes a permanent redirect.
-/

namespace Purels.Properties

open Go Security Store Service

/-- The code that the text of a cell stands for, if it is one that a link can have. -/
def cellCode (text : GoString) : Option Int :=
  if text = [] then some 302
  else
    match atoi text with
    | some n => if n = 0 ∨ n = 302 then some 302 else if n = 301 then some 301 else none
    | none => none

/-- An integer that the narrowing takes to an accepted code. -/
def Wraps (n : Int) : Prop :=
  (n ≠ 0 ∧ n ≠ 301 ∧ n ≠ 302) ∧ (toInt16 n = 0 ∨ toInt16 n = 301 ∨ toInt16 n = 302)

/-- A turn of an import about a row with this `redirect_code` cell. -/
def CellTurn (raw : GoString) (turn : RowOutcome) : Prop :=
  ∃ (u : Unicode) (loc : DatabaseLocale) (svc : LinkService) (ctx : Context)
    (header : List GoString) (rows : List (List GoString)) (outside : Nat → RowDraws)
    (s : LinkStore) (columns : Columns) (column i : Nat) (record : List GoString),
    columnsOf u header = some columns ∧ columns.redirectCode = some column ∧
      rows[i]? = some record ∧ record[column]? = some raw ∧
      (importTurns u loc svc ctx (header :: rows) outside s)[i]? = some turn

/-- What a cell says happens to its row, in every import: a link is made with the code of the
cell only, and a cell without a code is a failure of the row. -/
structure CellMeans (raw : GoString) : Prop where
  made : ∀ turn, CellTurn raw turn → ∀ (req : CreateLinkRequest) (link : Link),
    turn = .called req (.ok ⟨link, true⟩) → cellCode (trimSpace raw) = some link.redirectCode
  refused : ∀ turn, CellTurn raw turn → cellCode (trimSpace raw) = none → turn.fails

/-! ## Narrowing -/

/-- A code that the narrowing leaves alone. -/
theorem toInt16_eq_self {n : Int} (h : -2 ^ 15 ≤ n ∧ n < 2 ^ 15) : toInt16 n = n := by
  unfold toInt16
  rw [Int.bmod_eq_of_le]
  · omega
  · omega

/-- Unless the cell wraps around, the code that `Create` accepts is the code of the cell. -/
theorem cellCode_of_accepted {text : GoString} {code : Int}
    (hwraps : ¬ ∃ n, atoi text = some n ∧ Wraps n) (hread : rowRedirectCode text = some code)
    (haccepted : code = 0 ∨ code = 301 ∨ code = 302) :
    cellCode text = some (if code = 0 then 302 else code) := by
  unfold rowRedirectCode at hread
  unfold cellCode
  by_cases hblank : text = []
  · rw [if_pos hblank] at hread ⊢
    obtain rfl := Option.some.inj hread
    rfl
  rw [if_neg hblank] at hread ⊢
  cases hatoi : atoi text with
  | none =>
    rw [hatoi] at hread
    cases hread
  | some n =>
    rw [hatoi] at hread
    obtain rfl := Option.some.inj hread
    have hplain : n = 0 ∨ n = 301 ∨ n = 302 := by
      by_contra hother
      exact hwraps ⟨n, hatoi, by omega, haccepted⟩
    have hself : toInt16 n = n := toInt16_eq_self (by omega)
    rw [hself]
    rcases hplain with rfl | rfl | rfl <;> rfl

/-! ## One row -/

section

variable {u : Unicode} {loc : DatabaseLocale} {svc : LinkService} {ctx : Context}
  {columns : Columns}

/-- A call of `Create` that returns no error had an accepted redirect code; the link that it
makes has this code. -/
theorem Create_code {settings : RuntimeSettingsInput} {req : CreateLinkRequest} {now : Instant}
    {draws : Fin aliasAttempts → Draw} {s : LinkStore} {result : CreateResult}
    (h : (Create u loc svc settings ctx req now draws s).1 = .ok result) :
    (req.redirectCode = 0 ∨ req.redirectCode = 301 ∨ req.redirectCode = 302) ∧
      (result.created →
        result.link.redirectCode = if req.redirectCode = 0 then 302 else req.redirectCode) := by
  have haccepted : ∀ {checked : CheckedLink}, CreateChecked u settings req checked →
      req.redirectCode = 0 ∨ req.redirectCode = 301 ∨ req.redirectCode = 302 := by
    intro checked hchecked
    have hcode := hchecked.redirectCode
    have hallowed := hchecked.redirectCode_allowed
    split_ifs at hcode <;> omega
  rcases Create_cases u loc svc settings ctx req now draws s with
    ⟨e, t, heq, -⟩ | ⟨checked, link, heq, hcheck, -⟩ |
    ⟨checked, link, t, heq, hcheck, -, ⟨draw, hmade⟩, -⟩
  · rw [heq] at h
    cases h
  · rw [heq] at h
    obtain rfl := Except.ok.inj h
    exact ⟨haccepted (checkCreate_iff.mp hcheck), fun hcreated => by cases hcreated⟩
  · rw [heq] at h
    obtain rfl := Except.ok.inj h
    have hchecked := checkCreate_iff.mp hcheck
    refine ⟨haccepted hchecked, fun _ => ?_⟩
    rw [← hchecked.redirectCode, hmade]
    rfl

/-- A row that is not refused is blank, or has a cell whose code is accepted once narrowed. -/
theorem importRow_code {draws : RowDraws} {report : ImportReport} {record : List GoString}
    {s : LinkStore} {turn : RowOutcome}
    (hturn : turn = (importRow u loc svc ctx columns draws report (.record record) s).1) :
    turn.fails = true ∨ (turn = .blank ∧ isBlankRow record = true) ∨
      ∃ req result, turn = .called req (.ok result) ∧
        rowRedirectCode (fieldAt record columns.redirectCode) = some req.redirectCode ∧
        (req.redirectCode = 0 ∨ req.redirectCode = 301 ∨ req.redirectCode = 302) ∧
        (result.created →
          result.link.redirectCode = if req.redirectCode = 0 then 302 else req.redirectCode) := by
  subst hturn
  unfold importRow
  dsimp only
  by_cases hcap : report.created + report.failed ≥ maxImportRows
  · rw [if_pos hcap]
    exact .inl rfl
  rw [if_neg hcap]
  by_cases hblank : isBlankRow record = true
  · rw [if_pos hblank]
    exact .inr (.inl ⟨rfl, hblank⟩)
  rw [if_neg hblank]
  cases hrequest : rowRequest columns record with
  | error reason => exact .inl rfl
  | ok req =>
    dsimp only
    cases hcreate : (Create u loc svc draws.settings ctx req draws.now draws.draws s).1 with
    | error e => exact .inl rfl
    | ok result =>
      obtain ⟨haccepted, hcode⟩ := Create_code hcreate
      exact .inr (.inr ⟨req, result, rfl, (rowRequest_fields hrequest).2, haccepted, hcode⟩)

end

/-- The turn about a cell is that of a record with it. -/
theorem CellTurn.importRow {raw : GoString} {turn : RowOutcome} (h : CellTurn raw turn) :
    ∃ u loc svc ctx columns draws report record s,
      turn = (importRow u loc svc ctx columns draws report (.record record) s).1 ∧
        fieldAt record columns.redirectCode = trimSpace raw ∧ raw ∈ record := by
  obtain ⟨u, loc, svc, ctx, header, rows, outside, s, columns, column, i, record, hcolumns,
    hcolumn, hrow, hcell, hturns⟩ := h
  rw [importTurns, hcolumns] at hturns
  obtain ⟨read, report, s', hread, hturn⟩ := importSteps_getElem? hturns
  rw [List.getElem?_map, hrow] at hread
  obtain rfl := Option.some.inj hread
  refine ⟨u, loc, svc, ctx, columns, _, report, record, s', hturn, ?_, List.mem_of_getElem? hcell⟩
  rw [hcolumn]
  show trimSpace (record.getD column []) = _
  rw [List.getD_eq_getElem?_getD, hcell]
  rfl

/-! ## The cells that are read right -/

/-- Every cell that does not wrap around means what it says. -/
theorem cellMeans_of_not_wraps {raw : GoString}
    (h : ¬ ∃ n, atoi (trimSpace raw) = some n ∧ Wraps n) : CellMeans raw := by
  constructor
  case made =>
    intro turn hturn req link hmade
    obtain ⟨u, loc, svc, ctx, columns, draws, report, record, s, hcase, hcell, -⟩ :=
      hturn.importRow
    rcases importRow_code hcase with hfails | ⟨hblank, -⟩ | ⟨req', result, hcall, hread, haccepted, hcode⟩
    · rw [hmade] at hfails
      cases hfails
    · rw [hmade] at hblank
      cases hblank
    · rw [hmade] at hcall
      cases hcall
      rw [hcell] at hread
      rw [cellCode_of_accepted h hread haccepted, hcode rfl]
  case refused =>
    intro turn hturn hnone
    obtain ⟨u, loc, svc, ctx, columns, draws, report, record, s, hcase, hcell, hmem⟩ :=
      hturn.importRow
    rcases importRow_code hcase with hfails | ⟨-, hblank⟩ | ⟨req, result, -, hread, haccepted, -⟩
    · exact hfails
    · have htext : trimSpace raw = [] := by
        simpa using List.all_eq_true.mp hblank raw hmem
      rw [htext] at hnone
      cases hnone
    · rw [hcell] at hread
      rw [cellCode_of_accepted h hread haccepted] at hnone
      cases hnone

/-! ## The cells that wrap around -/

/-- The file of the examples below. -/
def cellHeader : List GoString := [lit "destination_url", lit "alias", lit "redirect_code"]

def cellRow (raw : GoString) : List GoString := [lit "https://example.com/", lit "launch", raw]

def cellDraws : RowDraws := ⟨{}, 0, fun _ => ⟨default, 0, none⟩⟩

/-- The link that its row makes. -/
def cellLink (code : Int) : Link where
  id := default
  aliasName := lit "launch"
  destinationURL := lit "https://example.com/"
  redirectCode := code

def cellRequest (code : Int) : CreateLinkRequest where
  destinationURL := lit "https://example.com/"
  aliasName := lit "launch"
  redirectCode := code

def cellColumns : Columns := ⟨0, some 1, none, none, some 2, none⟩

theorem columnsOf_cellHeader : columnsOf .ascii cellHeader = some cellColumns := by
  have hdestination : destinationNames.findSome? (columnIndex .ascii cellHeader) = some 0 := by
    decide
  have halias : columnIndex .ascii cellHeader (lit "alias") = some 1 := by decide
  have htitle : columnIndex .ascii cellHeader (lit "title") = none := by decide
  have htags : columnIndex .ascii cellHeader (lit "tags") = none := by decide
  have hcode : columnIndex .ascii cellHeader (lit "redirect_code") = some 2 := by decide
  have hdelay : columnIndex .ascii cellHeader (lit "interstitial_seconds") = none := by
    decide
  rw [columnsOf, hdestination, halias, htitle, htags, hcode, hdelay]
  rfl

theorem Create_cellRequest {code : Int} (h : code = 0 ∨ code = 301 ∨ code = 302) :
    (Create .ascii plainLocale ⟨[]⟩ {} {} (cellRequest code) 0 cellDraws.draws {}).1 =
      .ok ⟨cellLink (if code = 0 then 302 else code), true⟩ := by
  rcases h with rfl | rfl | rfl <;> decide

theorem ne_nil_of_atoi {text : GoString} {n : Int} (h : atoi text = some n) : text ≠ [] := by
  intro hnil
  rw [hnil] at h
  cases h

/-- A cell that wraps around makes a link, with the code it wraps around to. -/
theorem cellTurn_of_wraps {raw : GoString} {n : Int} (hatoi : atoi (trimSpace raw) = some n)
    (hwraps : Wraps n) :
    CellTurn raw (.called (cellRequest (toInt16 n))
      (.ok ⟨cellLink (if toInt16 n = 0 then 302 else toInt16 n), true⟩)) := by
  have hne : trimSpace raw ≠ [] := ne_nil_of_atoi hatoi
  have hrequest : rowRequest cellColumns (cellRow raw) = .ok (cellRequest (toInt16 n)) := by
    have hcode : rowRedirectCode (fieldAt (cellRow raw) cellColumns.redirectCode) =
        some (toInt16 n) := by
      show rowRedirectCode (trimSpace raw) = _
      rw [rowRedirectCode, if_neg hne, hatoi]
      rfl
    rw [rowRequest_ok cellColumns hcode rfl]
    have hdestination : trimSpace (lit "https://example.com/") = lit "https://example.com/" := by
      decide
    have halias : trimSpace (lit "launch") = lit "launch" := by decide
    have htags : splitTags [] = [] := by decide
    show Except.ok (CreateLinkRequest.mk (trimSpace (lit "https://example.com/"))
      (trimSpace (lit "launch")) [] (splitTags []) (toInt16 n) [] [] [] none) = _
    rw [hdestination, halias, htags]
    rfl
  have hblank : isBlankRow (cellRow raw) = false := by
    rw [isBlankRow, List.all_eq_false]
    exact ⟨raw, by simp [cellRow], by simpa using hne⟩
  have hturn : (importRow .ascii plainLocale ⟨[]⟩ {} cellColumns cellDraws {}
      (.record (cellRow raw)) {}).1 = .called (cellRequest (toInt16 n))
        (.ok ⟨cellLink (if toInt16 n = 0 then 302 else toInt16 n), true⟩) := by
    unfold importRow
    dsimp only
    rw [if_neg (by decide), if_neg (by rw [hblank]; exact Bool.false_ne_true), hrequest]
    dsimp only
    rw [← Create_cellRequest hwraps.2]
    rfl
  refine ⟨.ascii, plainLocale, ⟨[]⟩, {}, cellHeader, [cellRow raw], fun _ => cellDraws, {},
    cellColumns, 2, 0, cellRow raw, columnsOf_cellHeader, rfl, rfl, rfl, ?_⟩
  rw [importTurns, columnsOf_cellHeader, ← hturn]
  rfl

theorem not_cellMeans_of_wraps {raw : GoString} {n : Int} (hatoi : atoi (trimSpace raw) = some n)
    (hwraps : Wraps n) : ¬ CellMeans raw := by
  intro h
  have hcode := h.made _ (cellTurn_of_wraps hatoi hwraps) _ _ rfl
  obtain ⟨hplain, -⟩ := hwraps
  have hnone : cellCode (trimSpace raw) = none := by
    have hne : trimSpace raw ≠ [] := ne_nil_of_atoi hatoi
    rw [cellCode, if_neg hne, hatoi]
    dsimp only
    rw [if_neg (by omega), if_neg hplain.2.1]
  rw [hnone] at hcode
  cases hcode

/-- A cell means what it says unless it is an integer other than 0, 301 and 302 that 16 bits
turn into one of these. -/
theorem cellMeans_iff (raw : GoString) :
    CellMeans raw ↔ ¬ ∃ n, atoi (trimSpace raw) = some n ∧ Wraps n := by
  constructor
  · rintro h ⟨n, hatoi, hwraps⟩
    exact not_cellMeans_of_wraps hatoi hwraps h
  · exact cellMeans_of_not_wraps

/-- The cell 65837, which is 301 in 16 bits, makes a permanent redirect. -/
theorem code_wrapped : CellTurn (lit "65837") (.called (cellRequest 301) (.ok ⟨cellLink 301, true⟩)) ∧
    ¬ CellMeans (lit "65837") := by
  have hatoi : atoi (trimSpace (lit "65837")) = some 65837 := by decide
  have hwraps : Wraps 65837 := ⟨by decide, by decide⟩
  exact ⟨cellTurn_of_wraps hatoi hwraps, not_cellMeans_of_wraps hatoi hwraps⟩

end Purels.Properties
