import Purels.Lib.Counts
import Purels.Service.Csv

/-!
# The turns of an import

The loop of `ImportCSV` turn by turn: what it does with each record, and what of it the report
keeps.

* `RowOutcome` and `importRow`, one turn; `importSteps`, the turns of a file.
* `importRows_fst`: the report is the tally of the turns.
* `tally_created`, `tally_failed` and `tally_errors`: what a tally counts and lists.
* `importSteps_getElem?`: which record a turn is about.
-/

namespace Purels.Service

open Go Security Store

/-! ## One turn -/

/-- What a turn of the loop does with a record. -/
inductive RowOutcome where
  | unreadable (message : GoString)
  | stopped
  | blank
  /-- One of the two numbers is refused. -/
  | rejected (aliasName : GoString) (reason : RowReason)
  /-- `Create` is called, and returns. -/
  | called (req : CreateLinkRequest) (result : Except ServiceError CreateResult)

namespace RowOutcome

/-- What is reported as a failure. -/
def failure : RowOutcome → Option (GoString × RowReason)
  | .unreadable message => some ([], .unreadable message)
  | .stopped => some ([], .stopped)
  | .blank => none
  | .rejected aliasName reason => some (aliasName, reason)
  | .called req (.error e) => some (req.aliasName, rowError e)
  | .called _ (.ok _) => none

def fails (outcome : RowOutcome) : Bool := outcome.failure.isSome

/-- `Create` was called. -/
def isCall : RowOutcome → Bool
  | .called .. => true
  | _ => false

/-- `Create` returned no error. -/
def creates : RowOutcome → Bool
  | .called _ (.ok _) => true
  | _ => false

/-- The loop ends. -/
def stops : RowOutcome → Bool
  | .stopped => true
  | _ => false

/-- The report after the turn; `line` is that of the record. -/
def record (outcome : RowOutcome) (line : Nat) (report : ImportReport) : ImportReport :=
  match outcome.failure with
  | some (aliasName, reason) => failRow report line aliasName reason
  | none => if outcome.creates then { report with created := report.created + 1 } else report

theorem not_fails_of_creates {outcome : RowOutcome} (h : outcome.creates) :
    outcome.fails = false := by
  cases outcome with
  | called req result =>
    cases result with
    | error e => cases h
    | ok result => rfl
  | _ => cases h

@[simp] theorem record_created (outcome : RowOutcome) (line : Nat) (report : ImportReport) :
    (outcome.record line report).created =
      report.created + if outcome.creates then 1 else 0 := by
  unfold record
  cases hfailure : outcome.failure with
  | none =>
    dsimp only
    split_ifs <;> rfl
  | some failure =>
    have hnot : ¬ outcome.creates = true := by
      intro hcreates
      have hfails := not_fails_of_creates hcreates
      rw [fails, hfailure] at hfails
      cases hfails
    dsimp only
    rw [if_neg hnot]
    rfl

@[simp] theorem record_failed (outcome : RowOutcome) (line : Nat) (report : ImportReport) :
    (outcome.record line report).failed = report.failed + if outcome.fails then 1 else 0 := by
  unfold record fails
  cases outcome.failure with
  | none =>
    show (if outcome.creates then _ else report : ImportReport).failed = report.failed
    split_ifs <;> rfl
  | some failure => rfl

/-- The entry of the report. -/
def entry (outcome : RowOutcome) (line : Nat) : Option ImportError :=
  outcome.failure.map fun failure => ⟨line, failure.1, failure.2⟩

@[simp] theorem record_errors (outcome : RowOutcome) (line : Nat) {report : ImportReport}
    (h : report.errors.length ≤ maxReportErrors) :
    (outcome.record line report).errors =
      (report.errors ++ (outcome.entry line).toList).take maxReportErrors := by
  unfold record entry
  cases outcome.failure with
  | none =>
    rw [Option.map_none, Option.toList_none, List.append_nil, List.take_of_length_le h]
    dsimp only
    split_ifs <;> rfl
  | some failure =>
    rw [Option.map_some, Option.toList_some]
    dsimp only [failRow]
    split_ifs with hroom
    · rw [List.take_of_length_le]
      rw [List.length_append, List.length_singleton]
      omega
    · rw [List.take_append_of_le_length (by omega), List.take_of_length_le h]

end RowOutcome

section

variable (u : Unicode) (loc : DatabaseLocale) (svc : LinkService) (ctx : Context)
  (columns : Columns) (outside : Nat → RowDraws)

/-- One turn of the loop. -/
def importRow (draws : RowDraws) (report : ImportReport) (read : Read) (s : LinkStore) :
    RowOutcome × LinkStore :=
  match read with
  | .failed message => (.unreadable message, s)
  | .record record =>
    if report.created + report.failed ≥ maxImportRows then (.stopped, s)
    else if isBlankRow record then (.blank, s)
    else
      match rowRequest columns record with
      | .error reason => (.rejected (fieldAt record columns.aliasName) reason, s)
      | .ok req =>
        let r := Create u loc svc draws.settings ctx req draws.now draws.draws s
        (.called req r.1, r.2)

/-- The turns of the loop, up to its end. -/
def importSteps : Nat → ImportReport → List Read → LinkStore → List RowOutcome
  | _, _, [], _ => []
  | line, report, read :: rows, s =>
    let turn := importRow u loc svc ctx columns (outside line) report read s
    turn.1 ::
      if turn.1.stops then []
      else importSteps (line + 1) (turn.1.record (line + 1) report) rows turn.2

/-- The report of some turns. -/
def tally : Nat → ImportReport → List RowOutcome → ImportReport
  | _, report, [] => report
  | line, report, outcome :: outcomes =>
    tally (line + 1) (outcome.record (line + 1) report) outcomes

/-! ## The loop -/

variable {u loc svc ctx columns outside}

/-- The request of a row has the row's alias and redirect code. -/
theorem rowRequest_fields {record : List GoString} {req : CreateLinkRequest}
    (h : rowRequest columns record = .ok req) :
    req.aliasName = fieldAt record columns.aliasName ∧
      rowRedirectCode (fieldAt record columns.redirectCode) = some req.redirectCode := by
  unfold rowRequest at h
  split at h
  · cases h
  · rename_i code hcode
    split at h
    · cases h
    · rw [← Except.ok.inj h]
      exact ⟨rfl, hcode⟩

/-- The loop takes a turn, and goes on unless it stops. -/
theorem importRows_cons (line : Nat) (report : ImportReport) (read : Read) (rows : List Read)
    (s : LinkStore) :
    importRows u loc svc ctx columns outside line report (read :: rows) s =
      if (importRow u loc svc ctx columns (outside line) report read s).1.stops then
        ((importRow u loc svc ctx columns (outside line) report read s).1.record (line + 1) report,
          (importRow u loc svc ctx columns (outside line) report read s).2)
      else
        importRows u loc svc ctx columns outside (line + 1)
          ((importRow u loc svc ctx columns (outside line) report read s).1.record (line + 1)
            report) rows (importRow u loc svc ctx columns (outside line) report read s).2 := by
  cases read with
  | failed message => rfl
  | record record =>
    unfold importRow
    rw [importRows]
    dsimp only
    by_cases hcap : report.created + report.failed ≥ maxImportRows
    · simp only [if_pos hcap]
      rfl
    simp only [if_neg hcap]
    by_cases hblank : isBlankRow record = true
    · simp only [if_pos hblank]
      rfl
    · simp only [if_neg hblank]
      cases hrequest : rowRequest columns record with
      | error reason => rfl
      | ok req =>
        dsimp only
        cases hcreate : Create u loc svc (outside line).settings ctx req (outside line).now
          (outside line).draws s with
        | mk result t =>
          cases result with
          | error e =>
            dsimp only [RowOutcome.stops, RowOutcome.record, RowOutcome.failure]
            rw [(rowRequest_fields hrequest).1]
            rfl
          | ok result => rfl

/-- The report of the loop is the tally of its turns. -/
theorem importRows_fst (line : Nat) (report : ImportReport) (rows : List Read) (s : LinkStore) :
    (importRows u loc svc ctx columns outside line report rows s).1 =
      tally line report (importSteps u loc svc ctx columns outside line report rows s) := by
  induction rows generalizing line report s with
  | nil => rfl
  | cons read rows ih =>
    rw [importRows_cons, importSteps, tally]
    split_ifs with hstops
    · rfl
    · exact ih ..

/-- A turn is about the record at its place. -/
theorem importSteps_getElem? {line : Nat} {report : ImportReport} {rows : List Read}
    {s : LinkStore} {i : Nat} {outcome : RowOutcome}
    (h : (importSteps u loc svc ctx columns outside line report rows s)[i]? = some outcome) :
    ∃ read report' s', rows[i]? = some read ∧
      outcome = (importRow u loc svc ctx columns (outside (line + i)) report' read s').1 := by
  induction rows generalizing line report s i with
  | nil => simp [importSteps] at h
  | cons read rows ih =>
    rw [importSteps] at h
    cases i with
    | zero =>
      rw [List.getElem?_cons_zero, Option.some.injEq] at h
      exact ⟨read, report, s, rfl, h.symm⟩
    | succ i =>
      rw [List.getElem?_cons_succ] at h
      split_ifs at h
      · simp at h
      · obtain ⟨read', report', s', hread, hturn⟩ := ih h
        exact ⟨read', report', s', hread, by rw [hturn, Nat.add_right_comm, Nat.add_assoc]⟩

/-- The loop reads all records, or its last turn stops it. -/
theorem importSteps_length (line : Nat) (report : ImportReport) (rows : List Read)
    (s : LinkStore) :
    (importSteps u loc svc ctx columns outside line report rows s).length = rows.length ∨
      (importSteps u loc svc ctx columns outside line report rows s).length ≤ rows.length ∧
        (importSteps u loc svc ctx columns outside line report rows s).getLast? =
          some .stopped := by
  induction rows generalizing line report s with
  | nil => exact .inl rfl
  | cons read rows ih =>
    rw [importSteps]
    split_ifs with hstops
    · right
      refine ⟨by simp, ?_⟩
      rw [List.getLast?_singleton]
      cases houtcome : (importRow u loc svc ctx columns (outside line) report read s).1 with
      | stopped => rfl
      | _ =>
        rw [houtcome] at hstops
        cases hstops
    · rcases ih (line + 1) _ _ with hall | ⟨hle, hlast⟩
      · left
        rw [List.length_cons, hall, List.length_cons]
      · right
        refine ⟨by rw [List.length_cons, List.length_cons]; omega, ?_⟩
        rw [List.getLast?_cons, hlast]
        rfl

end

/-! ## The tally -/

theorem tally_created (line : Nat) (report : ImportReport) (outcomes : List RowOutcome) :
    (tally line report outcomes).created =
      report.created + outcomes.countP RowOutcome.creates := by
  induction outcomes generalizing line report with
  | nil => rfl
  | cons outcome outcomes ih =>
    rw [tally, ih, RowOutcome.record_created, List.countP_cons]
    omega

theorem tally_failed (line : Nat) (report : ImportReport) (outcomes : List RowOutcome) :
    (tally line report outcomes).failed = report.failed + outcomes.countP RowOutcome.fails := by
  induction outcomes generalizing line report with
  | nil => rfl
  | cons outcome outcomes ih =>
    rw [tally, ih, RowOutcome.record_failed, List.countP_cons]
    omega

/-- The entries of some turns, with the lines that the loop counts. -/
def entriesFrom : Nat → List RowOutcome → List ImportError
  | _, [] => []
  | line, outcome :: outcomes =>
    (outcome.entry (line + 1)).toList ++ entriesFrom (line + 1) outcomes

theorem take_take_append (n : Nat) (entries more : List ImportError) :
    (entries.take n ++ more).take n = (entries ++ more).take n := by
  have hroom : n - (entries.take n).length = n - entries.length := by
    rw [List.length_take]
    omega
  rw [List.take_append, List.take_append, List.take_take, Nat.min_self, hroom]

/-- The report lists the first entries. -/
theorem tally_errors (line : Nat) {report : ImportReport} (outcomes : List RowOutcome)
    (h : report.errors.length ≤ maxReportErrors) :
    (tally line report outcomes).errors =
      (report.errors ++ entriesFrom line outcomes).take maxReportErrors := by
  induction outcomes generalizing line report with
  | nil => rw [entriesFrom, List.append_nil, List.take_of_length_le h, tally]
  | cons outcome outcomes ih =>
    have hlength : (outcome.record (line + 1) report).errors.length ≤ maxReportErrors := by
      rw [RowOutcome.record_errors _ _ h]
      exact List.length_take_le ..
    rw [tally, ih _ hlength, RowOutcome.record_errors _ _ h, entriesFrom, ← List.append_assoc]
    exact take_take_append ..

end Purels.Service
