import Purels.Go.Url
import Purels.Store.Upkeep

/-!
# Probing a destination

`HealthChecker.Check` and the handler that calls it.

* `Probe`: what the client makes of a destination, and `destinationProbe`, by `url.Parse`.
* `Check`: the probe of a link, whose outcome is recorded.
* `CheckLink`: the handler, for a link of the caller.
-/

namespace Purels.Service

open Go Store

/-- `domain.LinkHealth`. -/
structure LinkHealth where
  checkedAt : Instant
  statusCode : Int := 0
  ok : Bool := false
  error : GoString := []
  deriving DecidableEq

/-- What asking for a destination comes to. -/
inductive Probe where
  /-- There is no client. -/
  | unconfigured
  /-- No request can be made of the destination, for the given reason. -/
  | malformed (error : String)
  | unreachable (error : GoString)
  | answered (statusCode : Int)
  deriving DecidableEq

/-- What the client makes of a request. -/
inductive ProbeAnswer where
  | failed (error : GoString)
  | answered (statusCode : Int)

/-- `http.NewRequestWithContext` and `Client.Do`: a request is made of what `url.Parse` makes
of the destination. -/
def destinationProbe (u : Unicode) (ask : Url → ProbeAnswer) (destination : GoString) : Probe :=
  match Url.parse u destination with
  | none => .malformed "parse: invalid URL"
  | some url =>
    match ask url with
    | .failed error => .unreachable error
    | .answered statusCode => .answered statusCode

/-- `HealthChecker.Check`. -/
def Check (probe : GoString → Probe) (linkID : Uuid) (destination : GoString) (now : Instant)
    (s : LinkStore) : Except ServiceError LinkHealth × LinkStore :=
  match probe destination with
  | .unconfigured => (.error (.invalid "destination checks are not configured"), s)
  | .malformed error => (.error (.invalid error), s)
  | .unreachable error =>
    match s.RecordLinkHealth linkID now 0 with
    | (.error e, s) => (.error e, s)
    | (.ok (), s) => (.ok { checkedAt := now, error }, s)
  | .answered statusCode =>
    match s.RecordLinkHealth linkID now statusCode with
    | (.error e, s) => (.error e, s)
    | (.ok (), s) => (.ok { checkedAt := now, statusCode, ok := decide (statusCode < 400) }, s)

/-- `CheckLink`: the link is loaded in the caller's scope first. -/
def CheckLink (loc : DatabaseLocale) (probe : GoString → Probe) (ctx : Context) (id : GoString)
    (now : Instant) (s : LinkStore) : Except ServiceError LinkHealth × LinkStore :=
  match s.GetLink loc id ctx.ownerID with
  | .error e => (.error e, s)
  | .ok link => Check probe link.id link.destinationURL now s

/-- A probe changes nothing, or the health columns of its link. -/
theorem Check_cases (probe : GoString → Probe) (linkID : Uuid) (destination : GoString)
    (now : Instant) (s : LinkStore) :
    (∃ e, Check probe linkID destination now s = (.error e, s)) ∨
    ∃ health checkedAt statusCode, Check probe linkID destination now s =
      (.ok health, s.updateLinks (fun row => row.id == linkID) fun row =>
        { row with lastCheckedAt := checkedAt, lastStatusCode := statusCode }) := by
  unfold Check
  split
  · exact .inl ⟨_, rfl⟩
  · exact .inl ⟨_, rfl⟩
  · unfold LinkStore.RecordLinkHealth
    by_cases hrow : (s.links.any fun row => row.id == linkID) = true
    · rw [if_pos hrow]
      exact .inr ⟨_, _, _, rfl⟩
    · rw [if_neg hrow]
      exact .inl ⟨_, rfl⟩
  · unfold LinkStore.RecordLinkHealth
    by_cases hrow : (s.links.any fun row => row.id == linkID) = true
    · rw [if_pos hrow]
      exact .inr ⟨_, _, _, rfl⟩
    · rw [if_neg hrow]
      exact .inl ⟨_, rfl⟩

/-- A probe is recorded when a request can be made of the destination. -/
theorem Check_destinationProbe (u : Unicode) (ask : Url → ProbeAnswer) (linkID : Uuid)
    (destination : GoString) (now : Instant) (s : LinkStore) :
    (Check (destinationProbe u ask) linkID destination now s).2 = s ∧
        Url.parse u destination = none ∨
      (Url.parse u destination).isSome ∧ ∃ statusCode : Int,
        (Check (destinationProbe u ask) linkID destination now s).2 =
          s.updateLinks (fun row => row.id == linkID) fun row =>
            { row with
              lastCheckedAt := some (toMicroseconds now)
              lastStatusCode := some statusCode } := by
  unfold Check destinationProbe
  cases Url.parse u destination with
  | none => exact .inl ⟨rfl, rfl⟩
  | some url =>
    refine .inr ⟨rfl, ?_⟩
    dsimp only
    cases ask url with
    | failed error =>
      refine ⟨0, ?_⟩
      rw [← s.RecordLinkHealth_snd linkID now 0]
      dsimp only
      split <;> rename_i hrecord <;> rw [hrecord]
    | answered statusCode =>
      refine ⟨statusCode, ?_⟩
      rw [← s.RecordLinkHealth_snd linkID now statusCode]
      dsimp only
      split <;> rename_i hrecord <;> rw [hrecord]

end Purels.Service
