import Purels.Http.ServiceErrors

/-!
# The text of a database error

What a client reads of an error that a statement of the store fails with.

* `FromDriver` and `TextFree`: the errors, and that both answers leave their texts out.
* `answers_recognised`, `answers_unrecognised`: what is answered.
* `database_text_iff`: the text stays inside exactly for the errors with a `PgError` in them,
  and for those that the method takes for a missing row.
* `connect_text_answered`: the text of a failed connection is the body of the answer.
-/

namespace Purels.Properties

open Go Store Http

/-! ## Errors of the driver -/

/-- The driver knows no sentinel of the program. -/
def FromDriver (e : Failure) : Prop := ∀ s, e.is s → s = .noRows

/-- What a client reads, through a handler and in the report of an import, when the method
returns an error. -/
def answers (handling : Handling) (e : Failure) : Option (ErrorResponse × GoString) :=
  (handling.returned e).map fun err => (writeServiceError err, rowErrorText err)

/-- Both answers are the same whatever the texts of the error are, so that they contain none
of them. -/
def TextFree (handling : Handling) (e : Failure) : Prop :=
  ∀ f, answers handling (e.mapText f) = answers handling e

/-! ## What is answered -/

@[simp] theorem IsDBError_mapText (f : GoString → GoString) (e : Failure) :
    IsDBError (e.mapText f) = IsDBError e := by
  rw [IsDBError, IsDBError, GoError.as_mapText]

/-- A `PgError` is normalized to something that keeps none of its text, or to itself. -/
theorem normalizeDBError_mapText (f : GoString → GoString) (e : Failure) :
    normalizeDBError (e.mapText f) = normalizeDBError e ∨
      normalizeDBError (e.mapText f) = e.mapText f ∧ normalizeDBError e = e := by
  unfold normalizeDBError
  rw [GoError.as_mapText]
  cases e.as with
  | none => exact .inr ⟨rfl, rfl⟩
  | some code =>
    dsimp only
    split_ifs
    · exact .inl rfl
    · exact .inl rfl
    · exact .inl rfl
    · exact .inr ⟨rfl, rfl⟩

/-- Without a `PgError` in it an error is not normalized. -/
theorem normalizeDBError_of_not {e : Failure} (h : IsDBError e = false) :
    normalizeDBError e = e := by
  unfold normalizeDBError
  rw [IsDBError, Option.isSome_eq_false_iff, Option.isNone_iff_eq_none] at h
  rw [h]

/-- No case of the switch is about an error of the driver. -/
theorem errorCases_driver {e : Failure} (h : FromDriver e) :
    errorCases.find? (fun c => e.is c.sentinel) = none := by
  rw [List.find?_eq_none]
  intro c hc his
  have hsentinel := h c.sentinel his
  have hnone : ∀ c ∈ errorCases, c.sentinel ≠ .noRows := by decide
  exact hnone c hc hsentinel

/-- An error of the driver that is recognised is answered for, and one that is not is told. -/
theorem writeServiceError_driver {e : Failure} (h : FromDriver e) :
    writeServiceError e = if IsDBError e then ⟨500, "internal_error", lit "internal server error"⟩
      else ⟨400, "", e.text⟩ := by
  rw [writeServiceError, errorCases_driver h]

theorem FromDriver.mapText {e : Failure} (f : GoString → GoString) (h : FromDriver e) :
    FromDriver (e.mapText f) := by
  intro s hs
  rw [GoError.is_mapText] at hs
  exact h s hs

/-! ## The condition -/

section

variable {e : Failure}

/-- A `PgError` that reaches a client unclassified is answered generically. -/
theorem textFree_raw (hdriver : FromDriver e) (hpg : IsDBError e) : TextFree .raw e := by
  intro f
  simp only [answers, Handling.returned, Option.map_some, writeServiceError_driver hdriver,
    writeServiceError_driver (hdriver.mapText f), rowErrorText, IsDBError_mapText, hpg, if_true]

theorem textFree_normalized (hdriver : FromDriver e) (hpg : IsDBError e) :
    TextFree .normalized e := by
  intro f
  rcases normalizeDBError_mapText f e with hsame | ⟨hlater, hbefore⟩
  · simp only [answers, Handling.returned, hsame]
  · simp only [answers, Handling.returned, hlater, hbefore]
    exact textFree_raw hdriver hpg f

theorem textFree_of_recognises (hdriver : FromDriver e) {handling : Handling}
    (h : handling.recognises e) : TextFree handling e := by
  induction handling with
  | raw => exact textFree_raw hdriver h
  | normalized => exact textFree_normalized hdriver h
  | noRows sentinel rest ih =>
    intro f
    cases hrows : e.is .noRows with
    | true => simp only [answers, Handling.returned, GoError.is_mapText, hrows, if_true]
    | false =>
      have hrest := ih (by simpa [Handling.recognises, hrows] using h) f
      simpa only [answers, Handling.returned, GoError.is_mapText, hrows, Bool.false_eq_true,
        if_false] using hrest
  | absent =>
    intro f
    cases hrows : e.is .noRows with
    | true => simp only [answers, Handling.returned, GoError.is_mapText, hrows, if_true]
    | false =>
      have hrest := textFree_raw hdriver (by simpa [Handling.recognises, hrows] using h) f
      simpa only [answers, Handling.returned, GoError.is_mapText, hrows, Bool.false_eq_true,
        if_false] using hrest

/-- What is not recognised is told as it is. -/
theorem answers_unrecognised (hdriver : FromDriver e) {handling : Handling}
    (h : handling.recognises e = false) :
    answers handling e = some (⟨400, "", e.text⟩, e.text) := by
  have hraw : IsDBError e = false → (writeServiceError e, rowErrorText e) =
      (⟨400, "", e.text⟩, e.text) := by
    intro hpg
    rw [writeServiceError_driver hdriver, rowErrorText, hpg]
    rfl
  induction handling with
  | raw =>
    rw [answers, Handling.returned, Option.map_some, hraw h]
  | normalized =>
    rw [answers, Handling.returned, normalizeDBError_of_not h, Option.map_some, hraw h]
  | noRows sentinel rest ih =>
    rw [Handling.recognises, Bool.or_eq_false_iff] at h
    have hrest := ih h.2
    simpa only [answers, Handling.returned, h.1, if_false, Bool.false_eq_true] using hrest
  | absent =>
    rw [Handling.recognises, Bool.or_eq_false_iff] at h
    simp only [answers, Handling.returned, h.1, Bool.false_eq_true, if_false, Option.map_some,
      hraw h.2]

end

/-- Whether an error is recognised does not hang on its texts. -/
theorem recognises_mapText (f : GoString → GoString) (e : Failure) (handling : Handling) :
    handling.recognises (e.mapText f) = handling.recognises e := by
  induction handling with
  | raw => exact IsDBError_mapText f e
  | normalized => exact IsDBError_mapText f e
  | noRows sentinel rest ih => rw [Handling.recognises, Handling.recognises, GoError.is_mapText, ih]
  | absent => rw [Handling.recognises, Handling.recognises, GoError.is_mapText, IsDBError_mapText]

/-- Database text stays away from the client exactly when the error is recognised.  For every
statement of every method whose errors a handler answers through `writeServiceError` or reports
of an import, and for every error of the driver, however it is wrapped, both answers leave
out its texts if and only if it has a `PgError` in it, or is a missing row where the method
expects one. -/
theorem database_text_iff (call : StoreCall) (e : Failure) (hdriver : FromDriver e) :
    ∀ handling ∈ call.statements, (TextFree handling e ↔ handling.recognises e) := by
  intro handling _
  constructor
  · intro hfree
    by_contra hnot
    have hnot : handling.recognises e = false := by simpa using hnot
    -- Another text gives another answer.
    have hother := hfree fun text => 0x21 :: text
    rw [answers_unrecognised hdriver hnot, answers_unrecognised (hdriver.mapText _)
      ((recognises_mapText _ e handling).trans hnot), GoError.text_mapText] at hother
    have htext := congrArg List.length (Prod.mk.inj (Option.some.inj hother)).2
    simp at htext
  · exact textFree_of_recognises hdriver

/-! ## A failed connection -/

/-- What the driver says when the server cannot be reached. -/
def connectFailure : Failure :=
  .wrap (lit "failed to connect to `user=purels database=purels`: 10.0.0.5:5432 (db): dial error")
    (.value none (lit "dial tcp 10.0.0.5:5432: connect: connection refused"))

theorem connectFailure_driver : FromDriver connectFailure := by
  intro s hs
  cases s with
  | noRows => rfl
  | _ => exact absurd hs (by decide)

/-- What the server says when the password of the deployment is wrong. -/
def refusedConnection : Failure :=
  .wrap (lit "failed to connect to `user=purels database=purels`: server error")
    (.typed (lit "28P01") (lit "FATAL: password authentication failed (SQLSTATE 28P01)"))

theorem refusedConnection_driver : FromDriver refusedConnection := by
  intro s hs
  cases s with
  | noRows => rfl
  | _ => exact absurd hs (by decide)

/-- A `PgError` is found inside the error that the driver wraps it in. -/
theorem database_text_refused : TextFree .absent refusedConnection :=
  (database_text_iff .findUser refusedConnection refusedConnection_driver .absent
    (List.mem_singleton.mpr rfl)).mpr rfl

/-- A login while the database is away: the answer tells host, user and database. -/
theorem connect_text_answered :
    Handling.absent ∈ StoreCall.findUser.statements ∧ FromDriver connectFailure ∧
      answers .absent connectFailure = some (⟨400, "", connectFailure.text⟩, connectFailure.text) ∧
      ¬ TextFree .absent connectFailure := by
  have hnot : Handling.recognises connectFailure .absent = false := rfl
  refine ⟨List.mem_singleton.mpr rfl, connectFailure_driver,
    answers_unrecognised connectFailure_driver hnot, fun hfree => ?_⟩
  have hother := hfree fun _ => []
  rw [answers_unrecognised connectFailure_driver hnot,
    answers_unrecognised (connectFailure_driver.mapText _) rfl] at hother
  exact absurd (congrArg (Option.map Prod.snd) hother) (by decide)

end Purels.Properties
