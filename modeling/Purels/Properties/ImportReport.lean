import Purels.Service.ImportSteps

/-!
# What an import accounts for

`ImportCSV` over whatever records the CSV reader takes from a file: how often it calls `Create`,
how large its report gets, and which rows the report counts.

* `importRow_cases`: what a turn about a record can be.
* `turns_bounded` and `turns_counted`: the loop, by induction on the records.
* `ImportCSV_accounts`: every row is counted once, within the bounds.
-/

namespace Purels.Service

open Go Security Store

/-- The turns of a file; there is none below a header that is refused. -/
def importTurns (u : Unicode) (loc : DatabaseLocale) (svc : LinkService) (ctx : Context)
    (records : List (List GoString)) (outside : Nat → RowDraws) (s : LinkStore) :
    List RowOutcome :=
  match records with
  | [] => []
  | header :: rows =>
    match columnsOf u header with
    | none => []
    | some columns => importSteps u loc svc ctx columns outside 1 {} (rows.map .record) s

/-- The data rows of a file: those below an accepted header. -/
def dataRows (u : Unicode) : List (List GoString) → List (List GoString)
  | [] => []
  | header :: rows => if (columnsOf u header).isSome then rows else []

/-- The report that is returned; beside an error it is the empty one. -/
def reportOf : Except ServiceError ImportReport → ImportReport
  | .ok report => report
  | .error _ => {}

/-- A report stays within the bounds of an import, and counts each of its rows once. -/
structure Accounted (rows : List (List GoString)) (turns : List RowOutcome)
    (report : ImportReport) : Prop where
  calls : turns.countP RowOutcome.isCall ≤ maxImportRows
  counted : report.created + report.failed ≤ maxImportRows + 1
  listed : report.errors.length ≤ maxReportErrors
  /-- `Created` is the number of `Create` calls without an error. -/
  created : report.created = turns.countP RowOutcome.creates
  failed : report.failed = turns.countP RowOutcome.fails
  /-- A row that is not blank is created or failed, and not both. -/
  once : ∀ (i : Nat) (row : List GoString) (turn : RowOutcome), rows[i]? = some row → turns[i]? = some turn → isBlankRow row = false →
    turn.fails = !turn.creates
  /-- All rows have a turn, or the last turn stopped the import. -/
  reached : turns.length = rows.length ∨
    turns.length ≤ rows.length ∧ turns.getLast? = some .stopped

section

variable {u : Unicode} {loc : DatabaseLocale} {svc : LinkService} {ctx : Context}
  {columns : Columns} {outside : Nat → RowDraws}

/-! ## One turn -/

/-- A turn about a record stops at the cap, passes over a blank row, refuses a number of the
row, or calls `Create`. -/
theorem importRow_cases (draws : RowDraws) (report : ImportReport) (record : List GoString)
    (s : LinkStore) :
    ((importRow u loc svc ctx columns draws report (.record record) s).1 = .stopped ∧
      maxImportRows ≤ report.created + report.failed) ∨
    (report.created + report.failed < maxImportRows ∧
      (((importRow u loc svc ctx columns draws report (.record record) s).1 = .blank ∧
          isBlankRow record = true) ∨
        (∃ aliasName reason,
          (importRow u loc svc ctx columns draws report (.record record) s).1 =
            .rejected aliasName reason) ∨
        ∃ req result,
          (importRow u loc svc ctx columns draws report (.record record) s).1 =
            .called req result)) := by
  unfold importRow
  dsimp only
  by_cases hcap : report.created + report.failed ≥ maxImportRows
  · rw [if_pos hcap]
    exact .inl ⟨rfl, hcap⟩
  rw [if_neg hcap]
  refine .inr ⟨by omega, ?_⟩
  by_cases hblank : isBlankRow record = true
  · rw [if_pos hblank]
    exact .inl ⟨rfl, hblank⟩
  rw [if_neg hblank]
  right
  cases rowRequest columns record with
  | error reason => exact .inl ⟨_, _, rfl⟩
  | ok req => exact .inr ⟨_, _, rfl⟩

/-- A call of `Create` is counted once. -/
theorem RowOutcome.called_once (req : CreateLinkRequest)
    (result : Except ServiceError CreateResult) :
    (RowOutcome.called req result).fails = !(RowOutcome.called req result).creates := by
  cases result <;> rfl

/-- A turn about a row that is not blank counts it once. -/
theorem importRow_once {draws : RowDraws} {report : ImportReport} {record : List GoString}
    {s : LinkStore} (h : isBlankRow record = false) :
    (importRow u loc svc ctx columns draws report (.record record) s).1.fails =
      !(importRow u loc svc ctx columns draws report (.record record) s).1.creates := by
  rcases @importRow_cases u loc svc ctx columns draws report record s with ⟨hturn, -⟩ | ⟨-, ⟨-, hblank⟩ | ⟨aliasName, reason, hturn⟩ |
      ⟨req, result, hturn⟩⟩
  · rw [hturn]
    rfl
  · rw [h] at hblank
    cases hblank
  · rw [hturn]
    rfl
  · rw [hturn]
    exact RowOutcome.called_once req result

/-- How often a turn is counted. -/
def RowOutcome.count (turn : RowOutcome) : Nat :=
  (if turn.creates then 1 else 0) + if turn.fails then 1 else 0

theorem RowOutcome.record_count (turn : RowOutcome) (line : Nat) (report : ImportReport) :
    (turn.record line report).created + (turn.record line report).failed =
      report.created + report.failed + turn.count := by
  rw [RowOutcome.record_created, RowOutcome.record_failed, RowOutcome.count]
  omega

/-- A turn that ends the loop is counted and calls nothing. -/
theorem RowOutcome.stops_spec {turn : RowOutcome} (h : turn.stops) :
    turn.isCall = false ∧ turn.count = 1 := by
  cases turn with
  | stopped => exact ⟨rfl, rfl⟩
  | _ => cases h

theorem RowOutcome.count_called (req : CreateLinkRequest)
    (result : Except ServiceError CreateResult) : (RowOutcome.called req result).count = 1 := by
  cases result <;> rfl

/-- Any other turn stays below the cap, and is counted when it calls `Create`. -/
theorem importRow_count {draws : RowDraws} {report : ImportReport} {record : List GoString}
    {s : LinkStore} (h : report.created + report.failed ≤ maxImportRows) {turn : RowOutcome}
    (hturn : (importRow u loc svc ctx columns draws report (.record record) s).1 = turn)
    (hgoes : ¬ turn.stops) :
    (if turn.isCall then 1 else 0) ≤ turn.count ∧
      report.created + report.failed + turn.count ≤ maxImportRows := by
  rcases @importRow_cases u loc svc ctx columns draws report record s with ⟨hcase, -⟩ | ⟨hroom, ⟨hcase, -⟩ | ⟨aliasName, reason, hcase⟩ |
      ⟨req, result, hcase⟩⟩
  · rw [hcase] at hturn
    subst hturn
    exact absurd rfl hgoes
  · rw [hcase] at hturn
    subst hturn
    exact ⟨Nat.le_refl 0, h⟩
  · rw [hcase] at hturn
    subst hturn
    exact ⟨Nat.zero_le 1, hroom⟩
  · rw [hcase] at hturn
    subst hturn
    rw [RowOutcome.count_called]
    exact ⟨Nat.le_refl 1, hroom⟩

/-! ## The loop -/

/-- What is counted of some turns. -/
def countedTurns (turns : List RowOutcome) : Nat :=
  turns.countP RowOutcome.creates + turns.countP RowOutcome.fails

theorem countedTurns_cons (turn : RowOutcome) (turns : List RowOutcome) :
    countedTurns (turn :: turns) = turn.count + countedTurns turns := by
  rw [countedTurns, countedTurns, List.countP_cons, List.countP_cons, RowOutcome.count]
  omega

/-- Below the cap the loop calls `Create` no more often than there is room, and counts one row
more at most: the one that stops it. -/
theorem turns_bounded (line : Nat) {report : ImportReport} (rows : List (List GoString))
    (s : LinkStore) (h : report.created + report.failed ≤ maxImportRows) :
    report.created + report.failed +
        (importSteps u loc svc ctx columns outside line report (rows.map .record) s).countP
          RowOutcome.isCall ≤ maxImportRows ∧
      report.created + report.failed +
        countedTurns (importSteps u loc svc ctx columns outside line report (rows.map .record) s) ≤
          maxImportRows + 1 := by
  induction rows generalizing line report s with
  | nil =>
    rw [List.map_nil, importSteps]
    exact ⟨h, Nat.le_succ_of_le h⟩
  | cons record rows ih =>
    rw [List.map_cons, importSteps, List.countP_cons, countedTurns_cons]
    by_cases hstops : (importRow u loc svc ctx columns (outside line) report (.record record)
        s).1.stops = true
    · obtain ⟨hcall, hcount⟩ := RowOutcome.stops_spec hstops
      rw [if_pos hstops, hcall, hcount]
      exact ⟨h, Nat.succ_le_succ h⟩
    · obtain ⟨hcall, hcount⟩ := importRow_count h rfl hstops
      rw [if_neg hstops]
      have hreport := RowOutcome.record_count
        (importRow u loc svc ctx columns (outside line) report (.record record) s).1 (line + 1)
        report
      have hrest := ih (line + 1) (importRow u loc svc ctx columns (outside line) report
        (.record record) s).2 (by rw [hreport]; exact hcount)
      rw [hreport] at hrest
      omega

/-! ## The report -/

theorem ImportCSV_record (header : List GoString) (rows : List (List GoString)) (s : LinkStore) :
    reportOf (ImportCSV u loc svc ctx ((header :: rows).map .record) outside s).1 =
      match columnsOf u header with
      | none => {}
      | some columns =>
        tally 1 {} (importSteps u loc svc ctx columns outside 1 {} (rows.map .record) s) := by
  rw [List.map_cons, ImportCSV]
  cases columnsOf u header with
  | none => rfl
  | some columns => exact importRows_fst ..

/-- A file without turns has the empty report. -/
theorem accounted_nil : Accounted [] [] {} where
  calls := Nat.zero_le _
  counted := Nat.zero_le _
  listed := Nat.zero_le _
  created := rfl
  failed := rfl
  once := fun _ _ _ h => by simp at h
  reached := .inl rfl

/-- The rows below an accepted header are accounted for. -/
theorem accounted_turns (rows : List (List GoString)) (s : LinkStore) :
    Accounted rows (importSteps u loc svc ctx columns outside 1 {} (rows.map .record) s)
      (tally 1 {} (importSteps u loc svc ctx columns outside 1 {} (rows.map .record) s)) := by
  have hbounded := @turns_bounded u loc svc ctx columns outside 1 {} rows s (Nat.zero_le _)
  have hcreated := tally_created 1 {}
    (importSteps u loc svc ctx columns outside 1 {} (rows.map .record) s)
  have hfailed := tally_failed 1 {}
    (importSteps u loc svc ctx columns outside 1 {} (rows.map .record) s)
  have herrors := @tally_errors 1 {}
    (importSteps u loc svc ctx columns outside 1 {} (rows.map .record) s) (Nat.zero_le _)
  have hlength := @importSteps_length u loc svc ctx columns outside 1 {} (rows.map .record) s
  rw [List.length_map] at hlength
  constructor
  case calls => simpa using hbounded.1
  case counted =>
    have hcount := hbounded.2
    rw [countedTurns] at hcount
    rw [hcreated, hfailed]
    omega
  case listed =>
    rw [herrors]
    exact List.length_take_le ..
  case created => rw [hcreated, Nat.zero_add]
  case failed => rw [hfailed, Nat.zero_add]
  case once =>
    intro i row turn hrow hturn hblank
    obtain ⟨read, report, s', hread, hcase⟩ := importSteps_getElem? hturn
    rw [List.getElem?_map, hrow] at hread
    rw [hcase, ← Option.some.inj hread]
    exact importRow_once hblank
  case reached => exact hlength

end

end Purels.Service
