import Purels.Go.CsvLines
import Purels.Properties.ImportReport

/-!
# The lines of import errors

The lines that an import reports against the lines on which the rows start. The loop counts
records, and the reader skips empty lines and lets a quoted field span lines.

* `LinesRight`: in every import of the content, each failed row is reported with its line.
* `InStep`: nothing has drifted apart before a record; `dataLines_iff`.
* `reportable_of_fails`: the rows that can be reported.
* `Create_full`: where every row fails.
* `import_lines`: the lines are right when reportable rows are in step, and only if the first
  of them are.
-/

namespace Purels.Properties

open Go Security Store Service

/-- The failures of some turns, each with the line of its row. -/
def entriesAt : List Nat → List RowOutcome → List ImportError
  | line :: lines, turn :: turns => (turn.entry line).toList ++ entriesAt lines turns
  | _, _ => []

/-- The physical lines on which the data rows start. -/
def dataLines (content : GoString) : List Nat :=
  ((places content).drop 1).map (Place.line content)

/-- In every import of the content, the report lists the failed rows with their lines. -/
def LinesRight (u : Unicode) (content : GoString) : Prop :=
  ∀ (loc : DatabaseLocale) (svc : LinkService) (ctx : Context) (outside : Nat → RowDraws)
    (s : LinkStore),
    (reportOf (ImportCSV u loc svc ctx ((ReadAll content).map .record) outside s).1).errors =
      (entriesAt (dataLines content)
        (importTurns u loc svc ctx (ReadAll content) outside s)).take maxReportErrors

/-- The number of rows that are not blank. -/
def filledRows (rows : List (List GoString)) : Nat := rows.countP fun row => !isBlankRow row

/-- A data row that can be reported: one that is not blank, or behind the rows of a full
import. -/
def Reportable (rows : List (List GoString)) (i : Nat) : Prop :=
  ∃ row, rows[i]? = some row ∧
    (isBlankRow row = false ∨ maxImportRows ≤ filledRows (rows.take i))

/-- Up to the record no empty line is skipped, and no field before it holds a line break. -/
def InStep (content : GoString) (k : Nat) : Prop :=
  (∀ place ∈ (places content).take (k + 1), place.skipped = 0) ∧
    ∀ place ∈ (places content).take k, ∀ field ∈ place.fields, (0x0A : UInt8) ∉ field

/-! ## Entries -/

/-- The counted lines are as good as the right ones when they agree on the failures. -/
theorem entriesAt_eq {line : Nat} {lines : List Nat} {turns : List RowOutcome}
    (hlength : turns.length ≤ lines.length)
    (h : ∀ (i : Nat) (turn : RowOutcome), turns[i]? = some turn → turn.fails = true →
      lines[i]? = some (line + 1 + i)) :
    entriesAt lines turns = entriesFrom line turns := by
  induction turns generalizing line lines with
  | nil => cases lines <;> rfl
  | cons turn turns ih =>
    cases lines with
    | nil => simp at hlength
    | cons first lines =>
      have hrest : entriesAt lines turns = entriesFrom (line + 1) turns := by
        apply ih (Nat.le_of_succ_le_succ hlength)
        intro i other hother hfails
        have hline := h (i + 1) other (by rw [List.getElem?_cons_succ]; exact hother) hfails
        rw [List.getElem?_cons_succ] at hline
        rw [hline, show line + 1 + (i + 1) = line + 1 + 1 + i by omega]
      have hfirst : turn.entry first = turn.entry (line + 1) := by
        cases hfailure : turn.failure with
        | none => rw [RowOutcome.entry, RowOutcome.entry, hfailure]; rfl
        | some failure =>
          have hline := h 0 turn rfl (by rw [RowOutcome.fails, hfailure]; rfl)
          rw [List.getElem?_cons_zero, Option.some.injEq] at hline
          rw [hline]
      rw [entriesAt, entriesFrom, hfirst, hrest]

/-- Where the first entries agree, the counted lines of these failures are right. -/
theorem line_of_entriesAt_eq {room line i : Nat} {lines : List Nat} {turns : List RowOutcome}
    {turn : RowOutcome} (hlength : turns.length ≤ lines.length)
    (h : (entriesFrom line turns).take room = (entriesAt lines turns).take room)
    (hturn : turns[i]? = some turn) (hfails : turn.fails = true)
    (hroom : (turns.take i).countP RowOutcome.fails < room) : lines[i]? = some (line + 1 + i) := by
  induction turns generalizing room line lines i with
  | nil => simp at hturn
  | cons first turns ih =>
    cases lines with
    | nil => simp at hlength
    | cons number lines =>
      have hrest := Nat.le_of_succ_le_succ hlength
      obtain ⟨room, rfl⟩ : ∃ n, room = n + 1 := ⟨room - 1, by omega⟩
      rw [entriesFrom, entriesAt] at h
      cases hfailure : first.failure with
      | none =>
        have hpass : first.fails = false := by rw [RowOutcome.fails, hfailure]; rfl
        have hnone : ∀ n, first.entry n = none := by
          intro n
          rw [RowOutcome.entry, hfailure]
          rfl
        rw [hnone, hnone] at h
        cases i with
        | zero =>
          obtain rfl := Option.some.inj hturn
          rw [hpass] at hfails
          cases hfails
        | succ i =>
          rw [List.take_succ_cons, List.countP_cons_of_neg (by rw [hpass]; exact Bool.false_ne_true)]
            at hroom
          rw [List.getElem?_cons_succ, ih hrest h hturn hroom,
            show line + 1 + (i + 1) = line + 1 + 1 + i by omega]
      | some failure =>
        have hpass : first.fails = true := by rw [RowOutcome.fails, hfailure]; rfl
        have hsome : ∀ n, (first.entry n).toList = [⟨n, failure.1, failure.2⟩] := by
          intro n
          rw [RowOutcome.entry, hfailure]
          rfl
        rw [hsome, hsome, List.singleton_append, List.singleton_append, List.take_succ_cons,
          List.take_succ_cons] at h
        obtain ⟨hfirst, hothers⟩ := List.cons.inj h
        cases i with
        | zero => rw [List.getElem?_cons_zero, ← (ImportError.mk.inj hfirst).1]
        | succ i =>
          rw [List.take_succ_cons, List.countP_cons_of_pos hpass] at hroom
          rw [List.getElem?_cons_succ, ih hrest hothers hturn (by omega),
            show line + 1 + (i + 1) = line + 1 + 1 + i by omega]

/-! ## The rows that are reported -/

section

variable {u : Unicode} {loc : DatabaseLocale} {svc : LinkService} {ctx : Context}
  {columns : Columns} {outside : Nat → RowDraws}

theorem filledRows_take_succ (row : List GoString) (rows : List (List GoString)) (i : Nat) :
    filledRows ((row :: rows).take (i + 1)) =
      (if isBlankRow row then 0 else 1) + filledRows (rows.take i) := by
  rw [List.take_succ_cons, filledRows, List.countP_cons, filledRows]
  cases isBlankRow row <;> simp [Nat.add_comm]

/-- A turn that goes on counts its row only if it is not blank. -/
theorem importRow_filled {draws : RowDraws} {report : ImportReport} {record : List GoString}
    {s : LinkStore}
    (hgoes : ¬ (importRow u loc svc ctx columns draws report (.record record) s).1.stops) :
    (importRow u loc svc ctx columns draws report (.record record) s).1.count =
      if isBlankRow record then 0 else 1 := by
  unfold importRow at hgoes ⊢
  dsimp only at hgoes ⊢
  by_cases hcap : report.created + report.failed ≥ maxImportRows
  · rw [if_pos hcap] at hgoes
    exact absurd rfl hgoes
  rw [if_neg hcap]
  by_cases hblank : isBlankRow record = true
  · rw [if_pos hblank, if_pos hblank]
    rfl
  rw [if_neg hblank, if_neg hblank]
  cases rowRequest columns record with
  | error reason => rfl
  | ok req => exact RowOutcome.count_called ..

/-- A row that fails can be reported. -/
theorem reportable_of_fails {line i : Nat} {report : ImportReport} {rows : List (List GoString)}
    {s : LinkStore} {turn : RowOutcome}
    (hturn : (importSteps u loc svc ctx columns outside line report (rows.map .record) s)[i]? =
      some turn) (hfails : turn.fails = true) :
    ∃ row, rows[i]? = some row ∧ (isBlankRow row = false ∨
      maxImportRows ≤ report.created + report.failed + filledRows (rows.take i)) := by
  induction rows generalizing line report s i with
  | nil => simp [importSteps] at hturn
  | cons record rows ih =>
    rw [List.map_cons, importSteps] at hturn
    cases i with
    | zero =>
      rw [List.getElem?_cons_zero, Option.some.injEq] at hturn
      refine ⟨record, rfl, ?_⟩
      by_cases hstops : (importRow u loc svc ctx columns (outside line) report (.record record)
          s).1.stops = true
      · rcases @importRow_cases u loc svc ctx columns (outside line) report record s with
          ⟨-, hcap⟩ | ⟨-, ⟨hcase, -⟩ | ⟨_, _, hcase⟩ | ⟨_, _, hcase⟩⟩
        · exact .inr (Nat.le_add_right_of_le hcap)
        all_goals
          rw [hcase] at hstops
          cases hstops
      · left
        have hcount := importRow_filled hstops
        have hpos : 1 ≤ turn.count := by
          rw [RowOutcome.count, if_pos hfails]
          exact Nat.le_add_left ..
        by_cases hblank : isBlankRow record = true
        · rw [hturn, if_pos hblank] at hcount
          omega
        · simpa using hblank
    | succ i =>
      rw [List.getElem?_cons_succ] at hturn
      split_ifs at hturn with hstops
      · simp at hturn
      · obtain ⟨row, hrow, hcase⟩ := ih hturn
        rw [RowOutcome.record_count, importRow_filled hstops, Nat.add_assoc,
          ← filledRows_take_succ] at hcase
        exact ⟨row, hrow, hcase⟩

end

/-! ## Where every row fails -/

/-- An account at its limit of one link. -/
def fullUser : User where
  id := default

def fullContext : Context := { user := some fullUser }

def fullStore : LinkStore where
  links := [{ id := default, aliasName := lit "only", destinationURL := [], userID := some default }]

def fullDraws : RowDraws where
  settings := { maxLinksPerUser := 1, uniqueURLs := false }
  now := 0
  draws := fun _ => ⟨default, 0, none⟩

variable {u : Unicode}

/-- There `Create` fails whatever the request, and changes nothing. -/
theorem Create_full (loc : DatabaseLocale) (svc : LinkService) (req : CreateLinkRequest) :
    ∃ e, Create u loc svc fullDraws.settings fullContext req fullDraws.now fullDraws.draws
      fullStore = (.error e, fullStore) := by
  have hquota : checkQuota fullDraws.settings fullContext fullStore = .error .quotaExceeded := by
    decide
  unfold Create
  cases checkCreate u fullDraws.settings req with
  | error e => exact ⟨e, rfl⟩
  | ok checked =>
    dsimp only
    by_cases halias : req.aliasName ≠ []
    · rw [if_pos halias]
      unfold createNamed
      cases NormalizeAlias u req.aliasName with
      | error e => exact ⟨_, rfl⟩
      | ok aliasName =>
        dsimp only
        rw [hquota]
        exact ⟨_, rfl⟩
    · rw [if_neg halias]
      have hreuse : reuseLink loc fullDraws.settings fullContext req.destinationURL fullDraws.now
          fullStore = .ok none := rfl
      rw [hreuse]
      dsimp only
      rw [hquota]
      exact ⟨_, rfl⟩

/-- There a row fails unless it is blank. -/
theorem importRow_full {columns : Columns} {report : ImportReport} (record : List GoString)
    (hroom : report.created + report.failed < maxImportRows) :
    let turn := importRow u plainLocale ⟨[]⟩ fullContext columns fullDraws report (.record record)
      fullStore
    turn.2 = fullStore ∧ ¬ turn.1.stops ∧ turn.1.fails = !isBlankRow record := by
  intro turn
  have hturn : turn = importRow u plainLocale ⟨[]⟩ fullContext columns fullDraws report
    (.record record) fullStore := rfl
  unfold importRow at hturn
  dsimp only at hturn
  rw [if_neg (by omega)] at hturn
  by_cases hblank : isBlankRow record = true
  · rw [if_pos hblank] at hturn
    rw [hturn, hblank]
    exact ⟨rfl, Bool.false_ne_true, rfl⟩
  rw [if_neg hblank] at hturn
  rw [Bool.not_eq_true] at hblank
  rw [hblank]
  cases hrequest : rowRequest columns record with
  | error reason =>
    rw [hrequest] at hturn
    rw [hturn]
    exact ⟨rfl, Bool.false_ne_true, rfl⟩
  | ok req =>
    obtain ⟨e, he⟩ := Create_full (u := u) plainLocale ⟨[]⟩ req
    rw [hrequest] at hturn
    dsimp only at hturn
    rw [he] at hturn
    rw [hturn]
    exact ⟨rfl, Bool.false_ne_true, rfl⟩

/-- There the turns of the rows that are not blank are failures, as far as there is room. -/
theorem turns_full {columns : Columns} {line i : Nat} {report : ImportReport}
    {rows : List (List GoString)} {row : List GoString} (hrow : rows[i]? = some row)
    (hroom : report.created + report.failed + filledRows (rows.take i) < maxImportRows) :
    ∃ turn, (importSteps u plainLocale ⟨[]⟩ fullContext columns (fun _ => fullDraws) line report
        (rows.map .record) fullStore)[i]? = some turn ∧ turn.fails = !isBlankRow row ∧
      ((importSteps u plainLocale ⟨[]⟩ fullContext columns (fun _ => fullDraws) line report
        (rows.map .record) fullStore).take i).countP RowOutcome.fails = filledRows (rows.take i) := by
  induction rows generalizing line report i with
  | nil => simp at hrow
  | cons record rows ih =>
    rw [List.map_cons, importSteps]
    cases i with
    | zero =>
      obtain rfl := Option.some.inj hrow
      obtain ⟨-, -, hfails⟩ := @importRow_full u columns report record hroom
      exact ⟨_, rfl, hfails, rfl⟩
    | succ i =>
      rw [List.getElem?_cons_succ] at hrow
      rw [filledRows_take_succ] at hroom
      obtain ⟨hstore, hgoes, hfails⟩ := @importRow_full u columns report record (by omega)
      have hcount := importRow_filled hgoes
      rw [if_neg hgoes, hstore]
      have hlater := RowOutcome.record_count (importRow u plainLocale ⟨[]⟩ fullContext columns
        fullDraws report (.record record) fullStore).1 (line + 1) report
      obtain ⟨turn, hturn, hcase, hbefore⟩ := @ih (line + 1) i _ hrow
        (by rw [hlater, hcount]; omega)
      refine ⟨turn, by rw [List.getElem?_cons_succ]; exact hturn, hcase, ?_⟩
      rw [List.take_succ_cons, List.countP_cons, hbefore, filledRows_take_succ, hfails]
      cases isBlankRow record <;> simp [Nat.add_comm]

/-! ## The lines -/

/-- The data row number `i` is the record number `i + 1`, and its line the one of this record. -/
theorem dataLines_getElem? {content : GoString} {i : Nat} {row : List GoString}
    (hrow : ((ReadAll content).drop 1)[i]? = some row) :
    ∃ place, (places content)[i + 1]? = some place ∧
      (dataLines content)[i]? = some (place.line content) := by
  rw [← places_fields, List.getElem?_drop, List.getElem?_map, Nat.add_comm] at hrow
  cases hplace : (places content)[i + 1]? with
  | none =>
    rw [hplace] at hrow
    cases hrow
  | some place =>
    refine ⟨place, rfl, ?_⟩
    rw [dataLines, List.getElem?_map, List.getElem?_drop, Nat.add_comm, hplace]
    rfl

/-- The counted line of a data row is the right one exactly when the row is in step. -/
theorem dataLines_iff {content : GoString} {i : Nat} {row : List GoString}
    (hrow : ((ReadAll content).drop 1)[i]? = some row) :
    (dataLines content)[i]? = some (1 + 1 + i) ↔ InStep content (i + 1) := by
  obtain ⟨place, hplace, hline⟩ := dataLines_getElem? hrow
  rw [hline, Option.some.injEq, show 1 + 1 + i = i + 1 + 1 by omega]
  exact line_iff hplace

theorem length_dataLines (content : GoString) :
    (dataLines content).length = ((ReadAll content).drop 1).length := by
  rw [dataLines, ← places_fields, List.length_map, List.length_drop, List.length_drop,
    List.length_map]

/-- What an import makes of a file whose header is accepted. -/
theorem linesRight_iff {content : GoString} {header : List GoString}
    {rows : List (List GoString)} {columns : Columns} (hread : ReadAll content = header :: rows)
    (hcolumns : columnsOf u header = some columns) :
    LinesRight u content ↔ ∀ loc svc ctx outside s,
      (entriesFrom 1 (importSteps u loc svc ctx columns outside 1 {} (rows.map .record) s)).take
          maxReportErrors =
        (entriesAt (dataLines content)
          (importSteps u loc svc ctx columns outside 1 {} (rows.map .record) s)).take
            maxReportErrors := by
  unfold LinesRight
  rw [hread]
  simp only [ImportCSV_record, importTurns, hcolumns]
  refine forall_congr' fun loc => forall_congr' fun svc => forall_congr' fun ctx =>
    forall_congr' fun outside => forall_congr' fun s => ?_
  rw [tally_errors _ _ (Nat.zero_le _), List.nil_append]

theorem turns_le {loc : DatabaseLocale} {svc : LinkService} {ctx : Context} {columns : Columns}
    {outside : Nat → RowDraws} {line : Nat} {report : ImportReport} (rows : List (List GoString))
    (s : LinkStore) :
    (importSteps u loc svc ctx columns outside line report (rows.map .record) s).length ≤
      rows.length := by
  rcases @importSteps_length u loc svc ctx columns outside line report (rows.map .record) s with
    hall | ⟨hle, -⟩
  · rw [hall, List.length_map]
  · rwa [List.length_map] at hle

/-- A file without an accepted header has no entries. -/
theorem linesRight_of_refused {content : GoString}
    (h : ∀ header rows, ReadAll content = header :: rows → columnsOf u header = none) :
    LinesRight u content := by
  intro loc svc ctx outside s
  cases hread : ReadAll content with
  | nil => cases dataLines content <;> rfl
  | cons header rows =>
    rw [ImportCSV_record, importTurns, h header rows hread]
    cases dataLines content <;> rfl

/-- The data rows of a file whose header is accepted. -/
theorem dataRows_eq {content : GoString} {header : List GoString} {rows : List (List GoString)}
    {columns : Columns} (hread : ReadAll content = header :: rows)
    (hcolumns : columnsOf u header = some columns) :
    dataRows u (ReadAll content) = rows ∧ (ReadAll content).drop 1 = rows := by
  rw [hread, dataRows, hcolumns]
  exact ⟨rfl, rfl⟩

/-- When no reportable row is out of step, the lines are right. -/
theorem linesRight_of_inStep {content : GoString}
    (h : ∀ i, Reportable (dataRows u (ReadAll content)) i → InStep content (i + 1)) :
    LinesRight u content := by
  cases hread : ReadAll content with
  | nil => exact linesRight_of_refused fun header rows heq => by rw [hread] at heq; cases heq
  | cons header rows =>
    cases hcolumns : columnsOf u header with
    | none =>
      apply linesRight_of_refused
      intro header' rows' heq
      rw [hread] at heq
      rw [← (List.cons.inj heq).1]
      exact hcolumns
    | some columns =>
      obtain ⟨hdata, hrows⟩ := dataRows_eq hread hcolumns
      rw [hdata] at h
      refine (linesRight_iff hread hcolumns).mpr fun loc svc ctx outside s => ?_
      rw [entriesAt_eq]
      · rw [length_dataLines, hrows]
        exact turns_le rows s
      · intro i turn hturn hfails
        obtain ⟨row, hrow, hcase⟩ := reportable_of_fails hturn hfails
        have hstep := h i ⟨row, hrow, by simpa using hcase⟩
        exact (dataLines_iff (by rw [hrows]; exact hrow)).mpr hstep

/-- When the lines are right, the first rows that are not blank are in step. -/
theorem inStep_of_linesRight {content : GoString} (h : LinesRight u content) {i : Nat}
    {row : List GoString} (hrow : (dataRows u (ReadAll content))[i]? = some row)
    (hblank : isBlankRow row = false)
    (hroom : filledRows ((dataRows u (ReadAll content)).take i) < maxReportErrors) :
    InStep content (i + 1) := by
  cases hread : ReadAll content with
  | nil =>
    rw [hread] at hrow
    simp [dataRows] at hrow
  | cons header rows =>
    cases hcolumns : columnsOf u header with
    | none =>
      rw [hread, dataRows, hcolumns] at hrow
      simp at hrow
    | some columns =>
      obtain ⟨hdata, hrows⟩ := dataRows_eq hread hcolumns
      rw [hdata] at hrow hroom
      have hlimit : maxReportErrors < maxImportRows := by decide
      have hright := (linesRight_iff hread hcolumns).mp h plainLocale ⟨[]⟩ fullContext
        (fun _ => fullDraws) fullStore
      obtain ⟨turn, hturn, hfails, hbefore⟩ := @turns_full u columns 1 i {} rows row hrow
        (by simpa using hroom.trans hlimit)
      rw [← dataLines_iff (by rw [hrows]; exact hrow)]
      refine line_of_entriesAt_eq ?_ hright hturn (by rw [hfails, hblank]; rfl)
        (by rw [hbefore]; exact hroom)
      rw [length_dataLines, hrows]
      exact turns_le rows fullStore

/-- An import reports its failures with the lines of their rows when no empty line is skipped
and no field spans lines before a row that it can report; and it does not unless this holds of
the first rows, as many as a report has room for. -/
theorem import_lines (u : Unicode) (content : GoString) :
    ((∀ i, Reportable (dataRows u (ReadAll content)) i → InStep content (i + 1)) →
      LinesRight u content) ∧
    (LinesRight u content → ∀ i, Reportable (dataRows u (ReadAll content)) i →
      filledRows ((dataRows u (ReadAll content)).take i) < maxReportErrors →
        InStep content (i + 1)) := by
  refine ⟨linesRight_of_inStep, fun h i hreportable hroom => ?_⟩
  obtain ⟨row, hrow, hblank | hfull⟩ := hreportable
  · exact inStep_of_linesRight h hrow hblank hroom
  · have hlimit : maxReportErrors < maxImportRows := by decide
    omega

/-- A header, an empty line, and a row that is no link: it stands on line 3 and is reported on
line 2. -/
theorem line_drifted :
    (dataLines (lit "url\n\nx\n") = [3] ∧
      (reportOf (ImportCSV .ascii plainLocale ⟨[]⟩ {} ((ReadAll (lit "url\n\nx\n")).map .record)
        (fun _ => fullDraws) {}).1).errors.map ImportError.line = [2]) ∧
    ¬ LinesRight .ascii (lit "url\n\nx\n") := by
  refine ⟨⟨by decide, by decide⟩, fun h => ?_⟩
  have hrow : (dataRows .ascii (ReadAll (lit "url\n\nx\n")))[0]? = some [lit "x"] := by
    decide
  have hstep := inStep_of_linesRight h hrow (by decide) (by decide)
  exact absurd hstep.1 (by decide)

end Purels.Properties
