import Purels.Http.Reads

/-!
# The window of the statistics

The days that `parseDateRange` makes of a query, in a zone that may skip midnights or whole days.

* `WindowRight`: midnights in order, at most 366 days, and a fitting request unchanged.
* `lastDay`, `firstDay`, `startDay`: the calendar days that a query asks for.
* `parseDateRange_eq`: the code compares elapsed time where the calendar counts days.
* `Fits`, `windowRight_of_fits` and `fits_of_windowRight`: when both counts agree.
* `window_overlong`: 367 days of UTC.
-/

namespace Purels.Properties

open Go Http

/-- The window of a query is right. -/
structure WindowRight (zone : Zone) (query : Values) (now : Instant) : Prop where
  first_midnight : zone.clock (parseDateRange zone query now).1 = 0
  last_midnight : zone.clock (parseDateRange zone query now).2 = 0
  ordered : (parseDateRange zone query now).1 ≤ (parseDateRange zone query now).2
  /-- Both ends are counted. -/
  capped : zone.day (parseDateRange zone query now).2 -
    zone.day (parseDateRange zone query now).1 + 1 ≤ maxDays
  kept : ∀ first last, parseDate (query.get "from") = some first →
    parseDate (query.get "to") = some last → first ≤ last → last - first + 1 ≤ maxDays →
      zone.day (parseDateRange zone query now).1 = first ∧
        zone.day (parseDateRange zone query now).2 = last

/-! ## Days -/

section

variable (zone : Zone) (query : Values) (now : Instant)

/-- The last day of the window: the requested one, or today. -/
def lastDay : Int := (parseDate (query.get "to")).getD (zone.day now)

/-- The first day that is asked for: the requested one, or 29 days before the last. -/
def askedDay : Int := (parseDate (query.get "from")).getD (lastDay zone query now - 29)

/-- It is not after the last one. -/
def firstDay : Int := min (askedDay zone query now) (lastDay zone query now)

/-- The first day of the window by the calendar. -/
def startDay : Int := max (firstDay zone query now) (lastDay zone query now - (maxDays - 1))

/-- The day begins at midnight, and that is what `Date` finds. -/
def Midnight (day : Int) : Prop :=
  zone.clock (zone.date day 0) = 0 ∧ zone.day (zone.date day 0) = day

/-- The elapsed time between the midnights of the requested days. -/
def elapsed : Int :=
  zone.date (lastDay zone query now) 0 - zone.date (firstDay zone query now) 0

/-- The longest elapsed time that the code lets through. -/
def maxElapsed : Int := maxDays * 24 * 3600 * second

/-- The zone has the midnights of the window, in the order of the calendar, and their distance
is over the limit when the request is of more than 366 days, and only then. -/
structure Fits : Prop where
  last : Midnight zone (lastDay zone query now)
  start : Midnight zone (startDay zone query now)
  start_le : zone.date (startDay zone query now) 0 ≤ zone.date (lastDay zone query now) 0
  reversed : zone.date (lastDay zone query now) 0 < zone.date (askedDay zone query now) 0 ↔
    lastDay zone query now < askedDay zone query now
  long : firstDay zone query now < lastDay zone query now - (maxDays - 1) →
    maxElapsed < elapsed zone query now
  short : lastDay zone query now - (maxDays - 1) < firstDay zone query now →
    elapsed zone query now ≤ maxElapsed

end

variable {zone : Zone} {query : Values} {now : Instant}

/-- Counting from the midnight of a day gives the midnight of another. -/
theorem addDays_midnight {day : Int} (hclock : zone.clock (zone.date day 0) = 0)
    (hday : zone.day (zone.date day 0) = day) (days : Int) :
    zone.addDays (zone.date day 0) days = zone.date (day + days) 0 := by
  rw [Zone.addDays, hclock, hday]

/-- The last instant of the window is the midnight of its last day. -/
theorem parseDateRange_snd :
    (parseDateRange zone query now).2 = zone.date (lastDay zone query now) 0 := by
  have hlast : ((parseDate (query.get "to")).map fun day => zone.date day 0).getD
      (zone.date (zone.day now) 0) = zone.date (lastDay zone query now) 0 := by
    unfold lastDay
    cases parseDate (query.get "to") <;> rfl
  unfold parseDateRange
  dsimp only
  rw [hlast]
  split_ifs <;> rfl

/-- The first instant, where the last day has its midnight and the zone keeps the order: the
code compares elapsed time. -/
theorem parseDateRange_fst (hlast : Midnight zone (lastDay zone query now))
    (hreversed : zone.date (lastDay zone query now) 0 < zone.date (askedDay zone query now) 0 ↔
      lastDay zone query now < askedDay zone query now) :
    (parseDateRange zone query now).1 =
      if maxElapsed < elapsed zone query now then
        zone.date (lastDay zone query now - (maxDays - 1)) 0
      else zone.date (firstDay zone query now) 0 := by
  have hto : ((parseDate (query.get "to")).map fun day => zone.date day 0).getD
      (zone.date (zone.day now) 0) = zone.date (lastDay zone query now) 0 := by
    unfold lastDay
    cases parseDate (query.get "to") <;> rfl
  have hfrom : ((parseDate (query.get "from")).map fun day => zone.date day 0).getD
      (zone.addDays (zone.date (lastDay zone query now) 0) (-29)) =
        zone.date (askedDay zone query now) 0 := by
    rw [addDays_midnight hlast.1 hlast.2]
    unfold askedDay
    cases parseDate (query.get "from") <;> rfl
  have hfirst : (if zone.date (lastDay zone query now) 0 < zone.date (askedDay zone query now) 0
      then zone.date (lastDay zone query now) 0 else zone.date (askedDay zone query now) 0) =
        zone.date (firstDay zone query now) 0 := by
    unfold firstDay
    by_cases hlater : lastDay zone query now < askedDay zone query now
    · rw [if_pos (hreversed.mpr hlater), min_eq_right (le_of_lt hlater)]
    · rw [if_neg fun h => hlater (hreversed.mp h), min_eq_left (not_lt.mp hlater)]
  have hcap : zone.addDays (zone.date (lastDay zone query now) 0) (-(maxDays - 1)) =
      zone.date (lastDay zone query now - (maxDays - 1)) 0 := addDays_midnight hlast.1 hlast.2 _
  unfold parseDateRange
  dsimp only
  rw [hto, hfrom, hfirst, hcap]
  show (if maxElapsed < elapsed zone query now then _ else _ : Instant × Instant).1 = _
  split_ifs <;> rfl

/-! ## When the window is right -/

/-- The window begins at the midnight of its first day when both counts agree. -/
theorem Fits.start_eq (h : Fits zone query now) :
    (parseDateRange zone query now).1 = zone.date (startDay zone query now) 0 := by
  rw [parseDateRange_fst h.last h.reversed, startDay]
  by_cases hover : maxElapsed < elapsed zone query now
  · have hlong : firstDay zone query now ≤ lastDay zone query now - (maxDays - 1) := by
      by_contra hshort
      have hle := h.short (not_le.mp hshort)
      omega
    rw [if_pos hover, max_eq_right hlong]
  · have hshort : lastDay zone query now - (maxDays - 1) ≤ firstDay zone query now := by
      by_contra hlong
      exact hover (h.long (not_le.mp hlong))
    rw [if_neg hover, max_eq_left hshort]

/-- The window is right when the query fits the zone. -/
theorem windowRight_of_fits (h : Fits zone query now) : WindowRight zone query now := by
  have hfirst := h.start_eq
  have hlast : (parseDateRange zone query now).2 = zone.date (lastDay zone query now) 0 :=
    parseDateRange_snd
  have hmax : maxDays = 366 := rfl
  constructor
  case first_midnight => rw [hfirst]; exact h.start.1
  case last_midnight => rw [hlast]; exact h.last.1
  case ordered => rw [hfirst, hlast]; exact h.start_le
  case capped =>
    rw [hfirst, hlast, h.start.2, h.last.2, startDay]
    omega
  case kept =>
    intro first last hfrom hto hle hdays
    have hlastDay : lastDay zone query now = last := by rw [lastDay, hto]; rfl
    have haskedDay : askedDay zone query now = first := by rw [askedDay, hfrom]; rfl
    have hstart : startDay zone query now = first := by
      rw [startDay, firstDay, hlastDay, haskedDay]
      omega
    rw [hfirst, hlast, h.start.2, h.last.2]
    exact ⟨hstart, hlastDay⟩

/-! ## When it is not -/

/-- A zone without skipped days, whose days begin one after the other, less than a day off those
of UTC. -/
structure Steady (zone : Zone) : Prop where
  day : ∀ day, zone.clock (zone.date day 0) = 0 → zone.day (zone.date day 0) = day
  next : ∀ day, zone.date day 0 < zone.date (day + 1) 0
  offset : ∀ t, -86400 < (zone.lookup t).offset ∧ (zone.lookup t).offset < 86400

/-- Days are in the order of their midnights. -/
theorem Steady.date_lt_iff (h : Steady zone) (a b : Int) :
    zone.date a 0 < zone.date b 0 ↔ a < b :=
  (strictMono_int_of_lt_succ h.next).lt_iff_lt

/-- A midnight is less than a day off that of UTC. -/
theorem Steady.date_bounds (h : Steady zone) (day : Int) :
    (day - 1) * 86400 * second < zone.date day 0 ∧
      (day + 1) * 86400 * second > zone.date day 0 := by
  have hoffset : ∃ t, zone.date day 0 = (day * 86400 - (zone.lookup t).offset) * second := by
    unfold Zone.date
    dsimp only
    rw [show (0 : Int) / second = 0 by decide, show (0 : Int) % second = 0 by decide]
    simp only [Int.add_zero]
    split_ifs
    · exact ⟨_, rfl⟩
    · exact ⟨_, rfl⟩
  obtain ⟨t, ht⟩ := hoffset
  obtain ⟨hlow, hhigh⟩ := h.offset t
  rw [ht]
  unfold second
  constructor <;> omega

/-- In a steady zone a right window comes from a query that fits. -/
theorem fits_of_windowRight (hzone : Steady zone) (h : WindowRight zone query now) :
    Fits zone query now := by
  have hmax : maxDays = 366 := rfl
  have hlast : Midnight zone (lastDay zone query now) := by
    have hclock := h.last_midnight
    rw [parseDateRange_snd] at hclock
    exact ⟨hclock, hzone.day _ hclock⟩
  have hreversed := hzone.date_lt_iff (lastDay zone query now) (askedDay zone query now)
  have hfirst := parseDateRange_fst hlast hreversed
  have hshort : lastDay zone query now - (maxDays - 1) < firstDay zone query now →
      elapsed zone query now ≤ maxElapsed := by
    intro hless
    have hL := hzone.date_bounds (lastDay zone query now)
    have hR := hzone.date_bounds (firstDay zone query now)
    unfold elapsed maxElapsed
    unfold second at hL hR ⊢
    omega
  have hlong : firstDay zone query now < lastDay zone query now - (maxDays - 1) →
      maxElapsed < elapsed zone query now := by
    intro hmore
    by_contra hunder
    rw [if_neg hunder] at hfirst
    have hclock := h.first_midnight
    have hdays := h.capped
    rw [hfirst] at hclock hdays
    rw [parseDateRange_snd, hlast.2, hzone.day _ hclock] at hdays
    omega
  have hstart : (parseDateRange zone query now).1 = zone.date (startDay zone query now) 0 := by
    rw [hfirst, startDay]
    by_cases hover : maxElapsed < elapsed zone query now
    · rw [if_pos hover, max_eq_right]
      by_contra hless
      exact absurd (hshort (not_le.mp hless)) (not_le.mpr hover)
    · rw [if_neg hover, max_eq_left]
      by_contra hmore
      exact hover (hlong (not_le.mp hmore))
  have hclock := h.first_midnight
  have hordered := h.ordered
  rw [hstart] at hclock hordered
  rw [parseDateRange_snd] at hordered
  exact ⟨hlast, ⟨hclock, hzone.day _ hclock⟩, hordered, hreversed, hlong, hshort⟩

/-- Every day of UTC has its midnight. -/
example : Steady .utc := by
  have hdate : ∀ day, Zone.utc.date day 0 = day * 86400 * second := by
    intro day
    simp [Zone.date, Zone.utc]
  constructor
  case day =>
    intro day _
    rw [hdate]
    show (day * 86400 * 1000000000 / 1000000000 + 0) / 86400 = day
    omega
  case next =>
    intro day
    rw [hdate, hdate]
    show day * 86400 * 1000000000 < (day + 1) * 86400 * 1000000000
    omega
  case offset =>
    intro t
    exact ⟨show (-86400 : Int) < 0 by decide, show (0 : Int) < 86400 by decide⟩

/-- The window of a query is right when the query fits the zone, and, in a zone that skips no
day, only then. -/
theorem parseDateRange_window (zone : Zone) (query : Values) (now : Instant) :
    (Fits zone query now → WindowRight zone query now) ∧
      (Steady zone → WindowRight zone query now → Fits zone query now) :=
  ⟨windowRight_of_fits, fits_of_windowRight⟩

/-- A leap year and one more day. -/
def overlongQuery : Values := [(lit "from", lit "2023-12-31"), (lit "to", lit "2024-12-31")]

/-- The window covers 367 days of UTC. -/
theorem window_overlong :
    Zone.utc.day (parseDateRange .utc overlongQuery 0).2 -
        Zone.utc.day (parseDateRange .utc overlongQuery 0).1 + 1 = 367 ∧
      ¬ WindowRight .utc overlongQuery 0 := by
  have hdays : Zone.utc.day (parseDateRange .utc overlongQuery 0).2 -
      Zone.utc.day (parseDateRange .utc overlongQuery 0).1 + 1 = 367 := by decide
  refine ⟨hdays, fun h => ?_⟩
  have hcapped := h.capped
  rw [hdays] at hcapped
  exact absurd hcapped (by decide)

end Purels.Properties
