import Purels.Properties.StatsWindow

/-!
# The days of the trend

The series of `GlobalTrend` is made by counting on from the first day, in a zone that may skip
midnights; its points are keyed by calendar days, and so is the rollup.

* `dayTotal` and `rangeTotal`, the rollup of a day and of a range of days.
* `TrendAgrees`: one point for each day, with its total, and the headline their sum.
* `trendDays_eq_some_iff`: the series is the iterates of `AddDate` before the upper bound.
* `found`, `DaysFound`: where `Date` finds the days of a range.
* `trend_agrees`: when the trend agrees with the rollup.
* `trend_doubled`: a day that is counted twice.
-/

namespace Purels.Properties

open Go Store Service Http

/-! ## The rollup -/

section

variable (countBots : Bool) (s : LinkStore) (owner : Option Uuid)

/-- The clicks of the visible links on a day. -/
def dayTotal (day : Int) : Int :=
  (((s.visibleDaily owner).filter fun row => row.day == day).map (DailyRow.count countBots)).sum

/-- Their clicks on the days from `first` up to `stop`. -/
def rangeTotal (first stop : Int) : Int :=
  (((s.visibleDaily owner).filter (DailyRow.within first stop)).map
    (DailyRow.count countBots)).sum

/-- The days from `first` up to `stop`, in order. -/
def calendarDays (first stop : Int) : List Int :=
  (List.range (stop - first).toNat).map fun n : Nat => first + n

/-- The trend and the headline of the days of a range agree with the rollup. -/
structure TrendAgrees (zone : Zone) (start stop : Instant) (trend : List TrendPoint)
    (overview : StatsOverview) : Prop where
  days : trend.map (fun point => zone.day point.day) =
    calendarDays (zone.day start) (zone.day stop)
  clicks : trend.map TrendPoint.clicks =
    (calendarDays (zone.day start) (zone.day stop)).map (dayTotal countBots s owner)
  shown : overview.trend = trend
  headline : overview.totalClicks =
    rangeTotal countBots s owner (zone.day start) (zone.day stop)

end

section

variable {countBots : Bool} {s : LinkStore} {owner : Option Uuid}

/-- A range with one more day has the clicks of that day more. -/
theorem rangeTotal_succ {first day : Int} (hle : first ≤ day) :
    rangeTotal countBots s owner first (day + 1) =
      rangeTotal countBots s owner first day + dayTotal countBots s owner day := by
  unfold rangeTotal dayTotal
  induction s.visibleDaily owner with
  | nil => rfl
  | cons row rest ih =>
    have hwithin : row.within first (day + 1) = true ↔
        row.within first day = true ∨ (row.day == day) = true := by
      simp only [DailyRow.within, Bool.and_eq_true, decide_eq_true_eq, beq_iff_eq]
      omega
    have hapart : ¬ (row.within first day = true ∧ (row.day == day) = true) := by
      simp only [DailyRow.within, Bool.and_eq_true, decide_eq_true_eq, beq_iff_eq]
      omega
    simp only [List.filter_cons]
    by_cases hbefore : row.within first day = true
    · have hother : ¬ (row.day == day) = true := fun h => hapart ⟨hbefore, h⟩
      rw [if_pos (hwithin.mpr (Or.inl hbefore)), if_pos hbefore, if_neg hother]
      simp only [List.map_cons, List.sum_cons, ih]
      omega
    · by_cases hday : (row.day == day) = true
      · rw [if_pos (hwithin.mpr (Or.inr hday)), if_neg hbefore, if_pos hday]
        simp only [List.map_cons, List.sum_cons, ih]
        omega
      · have hout : ¬ row.within first (day + 1) = true := fun h =>
          (hwithin.mp h).elim hbefore hday
        rw [if_neg hout, if_neg hbefore, if_neg hday, ih]

/-- A range without days has no clicks. -/
theorem rangeTotal_empty {first stop : Int} (hle : stop ≤ first) :
    rangeTotal countBots s owner first stop = 0 := by
  have hnone : (s.visibleDaily owner).filter (DailyRow.within first stop) = [] := by
    rw [List.filter_eq_nil_iff]
    intro row _
    simp only [DailyRow.within, Bool.and_eq_true, decide_eq_true_eq]
    omega
  rw [rangeTotal, hnone]
  rfl

/-- A range has the clicks of its days. -/
theorem sum_dayTotal (first stop : Int) :
    ((calendarDays first stop).map (dayTotal countBots s owner)).sum =
      rangeTotal countBots s owner first stop := by
  by_cases hle : stop ≤ first
  · have hnone : (stop - first).toNat = 0 := by omega
    rw [rangeTotal_empty hle, calendarDays, hnone]
    rfl
  · obtain ⟨days, rfl⟩ : ∃ days : Nat, stop = first + days := ⟨(stop - first).toNat, by omega⟩
    rw [calendarDays, add_sub_cancel_left, Int.toNat_natCast]
    clear hle
    induction days with
    | zero => rw [rangeTotal_empty (by omega)]; rfl
    | succ days ih =>
      rw [List.range_succ, List.map_append, List.map_append, List.sum_append, ih, Nat.cast_succ,
        ← Int.add_assoc, rangeTotal_succ (by omega)]
      simp

/-- Within the range the query returns the clicks of a day. -/
theorem trendClicks_eq {first stop day : Int} (hfirst : first ≤ day) (hstop : day < stop) :
    s.trendClicks countBots first stop owner day = dayTotal countBots s owner day := by
  have hrows : ((s.visibleDaily owner).filter fun row => row.within first stop && row.day == day)
      = (s.visibleDaily owner).filter fun row => row.day == day := by
    apply List.filter_congr
    intro row _
    by_cases hday : row.day = day
    · have hwithin : row.within first stop = true := by
        simp only [DailyRow.within, Bool.and_eq_true, decide_eq_true_eq]
        omega
      rw [hwithin, Bool.true_and]
    · have hother : (row.day == day) = false := beq_eq_false_iff_ne.mpr hday
      rw [hother, Bool.and_false]
  rw [LinkStore.trendClicks, hrows, dayTotal]

end

/-! ## The series -/

section

variable {zone : Zone} {start stop : Instant}

/-- `AddDate` for one day, `n` times. -/
def counted (zone : Zone) (start : Instant) (n : Nat) : Instant :=
  (fun day => zone.addDays day 1)^[n] start

/-- The series is what counting gives before the upper bound. -/
theorem trendDays_eq_some_iff {rounds : Nat} {days : List Instant} :
    StatsService.trendDays zone stop rounds start = some days ↔
      days.length ≤ rounds ∧ days = (List.range days.length).map (counted zone start) ∧
        (∀ n < days.length, counted zone start n < stop) ∧
        stop ≤ counted zone start days.length := by
  induction rounds generalizing start days with
  | zero =>
    unfold StatsService.trendDays
    by_cases hbefore : start < stop
    · rw [if_pos hbefore]
      refine ⟨fun h => by simp at h, fun ⟨hlen, _, _, hend⟩ => ?_⟩
      rw [Nat.le_zero.mp hlen] at hend
      exact absurd hbefore (not_lt.mpr hend)
    · rw [if_neg hbefore]
      constructor
      · intro h
        cases h
        exact ⟨le_refl 0, rfl, fun n hn => absurd hn (Nat.not_lt_zero n), not_lt.mp hbefore⟩
      · rintro ⟨hlen, -⟩
        rw [List.length_eq_zero_iff.mp (Nat.le_zero.mp hlen)]
  | succ rounds ih =>
    unfold StatsService.trendDays
    by_cases hbefore : start < stop
    · rw [if_pos hbefore]
      have hshift : ∀ n, counted zone (zone.addDays start 1) n = counted zone start (n + 1) :=
        fun n => (Function.iterate_succ_apply _ n start).symm
      constructor
      · intro h
        obtain ⟨rest, hrest, hdays⟩ := Option.map_eq_some_iff.mp h
        obtain ⟨hlen, heq, hlt, hend⟩ := ih.mp hrest
        cases hdays
        refine ⟨Nat.succ_le_succ hlen, ?_, ?_, ?_⟩
        · rw [List.length_cons, List.range_succ_eq_map, List.map_cons, List.map_map]
          exact congrArg (List.cons start) heq
        · intro n hn
          cases n with
          | zero => exact hbefore
          | succ n =>
            rw [← hshift]
            exact hlt n (Nat.lt_of_succ_lt_succ hn)
        · rw [List.length_cons, ← hshift]
          exact hend
      · rintro ⟨hlen, heq, hlt, hend⟩
        cases days with
        | nil => exact absurd hbefore (not_lt.mpr hend)
        | cons day rest =>
          rw [List.length_cons, List.range_succ_eq_map, List.map_cons, List.map_map] at heq
          injection heq with hday hrest
          have htail : StatsService.trendDays zone stop rounds (zone.addDays start 1) =
              some rest := by
            rw [ih]
            refine ⟨Nat.le_of_succ_le_succ hlen, hrest, fun n hn => ?_, ?_⟩
            · rw [hshift]
              exact hlt (n + 1) (Nat.succ_lt_succ hn)
            · rw [hshift]
              exact hend
          rw [htail, hday]
          rfl
    · rw [if_neg hbefore]
      constructor
      · intro h
        cases h
        exact ⟨Nat.zero_le _, rfl, fun n hn => absurd hn (Nat.not_lt_zero n), not_lt.mp hbefore⟩
      · rintro ⟨-, -, hlt, -⟩
        cases days with
        | nil => rfl
        | cons day rest => exact absurd (hlt 0 (Nat.succ_pos _)) hbefore

/-! ## The days that `Date` finds -/

/-- What `Date` finds for the `n`-th calendar day after that of `start`, at the time of day that
it found for the one before. -/
def found (zone : Zone) (start : Instant) : Nat → Instant
  | 0 => start
  | n + 1 => zone.date (zone.day start + (n + 1)) (zone.clock (found zone start n))

/-- `Date` finds every day of the range on that day and before the upper bound, and the day of
the upper bound not before it. -/
structure DaysFound (zone : Zone) (start stop : Instant) : Prop where
  on_day : ∀ n : Nat, zone.day start + n < zone.day stop →
    zone.day (found zone start n) = zone.day start + n
  before : ∀ n : Nat, zone.day start + n < zone.day stop → found zone start n < stop
  ended : stop ≤ found zone start (zone.day stop - zone.day start).toNat

/-- Counting on gives what `Date` finds as long as the days found are the days counted. -/
theorem counted_eq_found {n : Nat}
    (hdays : ∀ m < n, zone.day (counted zone start m) = zone.day start + m) :
    counted zone start n = found zone start n := by
  induction n with
  | zero => rfl
  | succ n ih =>
    have hsame := ih fun m hm => hdays m (Nat.lt_succ_of_lt hm)
    have hday := hdays n (Nat.lt_succ_self n)
    rw [found, ← hsame, counted, Function.iterate_succ_apply']
    show zone.addDays (counted zone start n) 1 = _
    rw [Zone.addDays, hday, Int.add_assoc]

/-- The other way round. -/
theorem found_eq_counted {n : Nat}
    (hdays : ∀ m < n, zone.day (found zone start m) = zone.day start + m) :
    counted zone start n = found zone start n := by
  induction n using Nat.strong_induction_on with
  | _ n ih =>
    apply counted_eq_found
    intro m hm
    rw [ih m hm fun k hk => hdays k (Nat.lt_trans hk hm)]
    exact hdays m hm

/-- The days found are the days of the range. -/
theorem DaysFound.trendDays (h : DaysFound zone start stop) :
    StatsService.trendDays zone stop (zone.day stop - zone.day start).toNat start =
      some ((List.range (zone.day stop - zone.day start).toNat).map (found zone start)) := by
  have hcounted : ∀ n ≤ (zone.day stop - zone.day start).toNat,
      counted zone start n = found zone start n := by
    intro n hn
    apply found_eq_counted
    intro m hm
    exact h.on_day m (by omega)
  rw [trendDays_eq_some_iff, List.length_map, List.length_range]
  refine ⟨le_refl _, ?_, fun n hn => ?_, ?_⟩
  · apply List.map_congr_left
    intro n hn
    exact (hcounted n (le_of_lt (List.mem_range.mp hn))).symm
  · rw [hcounted n (le_of_lt hn)]
    exact h.before n (by omega)
  · rw [hcounted _ (le_refl _)]
    exact h.ended

/-- A series with one point for each day finds the days of the range. -/
theorem daysFound_of_trendDays {rounds : Nat} {days : List Instant}
    (hdays : StatsService.trendDays zone stop rounds start = some days)
    (heach : days.map zone.day = calendarDays (zone.day start) (zone.day stop)) :
    DaysFound zone start stop := by
  obtain ⟨-, heq, hlt, hend⟩ := trendDays_eq_some_iff.mp hdays
  have hlen : days.length = (zone.day stop - zone.day start).toNat := by
    have hlengths := congrArg List.length heach
    rw [calendarDays, List.length_map, List.length_map, List.length_range] at hlengths
    exact hlengths
  have hday : ∀ n < days.length, zone.day (counted zone start n) = zone.day start + n := by
    intro n hn
    have hat := congrArg (fun all => all[n]?) heach
    rw [calendarDays, ← hlen, heq] at hat
    simpa [List.getElem?_range hn] using hat
  have hfound : ∀ n ≤ days.length, counted zone start n = found zone start n := by
    intro n hn
    apply counted_eq_found
    intro m hm
    exact hday m (Nat.lt_of_lt_of_le hm hn)
  constructor
  case on_day =>
    intro n hn
    rw [← hfound n (by omega)]
    exact hday n (by omega)
  case before =>
    intro n hn
    rw [← hfound n (by omega)]
    exact hlt n (by omega)
  case ended =>
    rw [← hlen, ← hfound _ (le_refl _)]
    exact hend

/-- From midnight on, `Date` finds midnights as long as the zone has them. -/
theorem found_midnight {first : Int} {n : Nat} (hfirst : Midnight zone first)
    (hdays : ∀ m < n, Midnight zone (first + m)) :
    found zone (zone.date first 0) n = zone.date (first + n) 0 := by
  induction n with
  | zero => rw [found, Nat.cast_zero, Int.add_zero]
  | succ n ih =>
    rw [found, ih fun m hm => hdays m (Nat.lt_succ_of_lt hm), (hdays n (Nat.lt_succ_self n)).1,
      hfirst.2, Nat.cast_succ]

/-- Between midnights all the days are found when the zone has each of their midnights, in
order. -/
theorem daysFound_of_midnights {first last : Int}
    (hdays : ∀ day, first ≤ day → day ≤ last → Midnight zone day)
    (hordered : ∀ day, first ≤ day → day < last → zone.date day 0 < zone.date last 0)
    (hle : first ≤ last) : DaysFound zone (zone.date first 0) (zone.date last 0) := by
  have hfirst := hdays first (le_refl _) hle
  have hlast := hdays last hle (le_refl _)
  have hfound : ∀ n : Nat, first + n ≤ last →
      found zone (zone.date first 0) n = zone.date (first + n) 0 := by
    intro n hn
    apply found_midnight hfirst
    intro m hm
    exact hdays _ (by omega) (by omega)
  constructor
  case on_day =>
    intro n hn
    rw [hfirst.2, hlast.2] at hn
    rw [hfound n (le_of_lt hn), hfirst.2]
    exact (hdays _ (by omega) (le_of_lt hn)).2
  case before =>
    intro n hn
    rw [hfirst.2, hlast.2] at hn
    rw [hfound n (le_of_lt hn)]
    exact hordered _ (by omega) hn
  case ended =>
    rw [hfirst.2, hlast.2, hfound _ (by omega)]
    have hsame : first + ((last - first).toNat : Int) = last := by omega
    rw [hsame]

end

/-! ## Agreement with the rollup -/

section

variable {loc : DatabaseLocale} {zone : Zone} {settings : RuntimeSettingsInput}
  {ipMode : GoString} {ctx : Context} {start stop : Instant} {referrerLimit recentLimit : Nat}
  {s : LinkStore}

/-- The trend and the overview of a range are made in the end, and agree with the rollup. -/
def OverviewAgrees (loc : DatabaseLocale) (zone : Zone) (settings : RuntimeSettingsInput)
    (ipMode : GoString) (ctx : Context) (start stop : Instant) (referrerLimit recentLimit : Nat)
    (s : LinkStore) : Prop :=
  ∃ rounds trend overview,
    StatsService.GlobalTrend zone settings rounds start stop ctx.ownerID s = some trend ∧
      StatsService.Overview loc zone settings ipMode rounds ctx start stop referrerLimit
        recentLimit s = some overview ∧
      TrendAgrees settings.countBots s ctx.ownerID zone start stop trend overview

/-- When `Date` finds the days of the range, each has its point and its clicks. -/
theorem overviewAgrees_of_daysFound (h : DaysFound zone start stop) :
    OverviewAgrees loc zone settings ipMode ctx start stop referrerLimit recentLimit s := by
  have hday : ∀ n ∈ List.range (zone.day stop - zone.day start).toNat,
      zone.day (found zone start n) = zone.day start + n := by
    intro n hn
    rw [List.mem_range] at hn
    exact h.on_day n (by omega)
  have hclicks : ∀ n ∈ List.range (zone.day stop - zone.day start).toNat,
      s.trendClicks settings.countBots (zone.day start) (zone.day stop) ctx.ownerID
          (zone.day (found zone start n)) =
        dayTotal settings.countBots s ctx.ownerID (zone.day start + n) := by
    intro n hn
    rw [hday n hn]
    rw [List.mem_range] at hn
    exact trendClicks_eq (by omega) (by omega)
  have htrend := congrArg (Option.map (List.map fun day => ({
    day := day
    clicks := s.trendClicks settings.countBots (zone.day start) (zone.day stop) ctx.ownerID
      (zone.day day) } : TrendPoint))) h.trendDays
  refine ⟨_, _, _, htrend, congrArg (Option.map _) htrend, ?_⟩
  have hpoints : (((List.range (zone.day stop - zone.day start).toNat).map (found zone start)).map
      fun day => s.trendClicks settings.countBots (zone.day start) (zone.day stop) ctx.ownerID
        (zone.day day)) =
      (calendarDays (zone.day start) (zone.day stop)).map
        (dayTotal settings.countBots s ctx.ownerID) := by
    rw [calendarDays, List.map_map, List.map_map]
    exact List.map_congr_left hclicks
  constructor
  case days =>
    rw [List.map_map, List.map_map, calendarDays]
    exact List.map_congr_left hday
  case clicks =>
    rw [List.map_map]
    exact hpoints
  case shown => rfl
  case headline =>
    show (List.map TrendPoint.clicks (List.map _ _)).sum = _
    rw [List.map_map]
    exact (congrArg List.sum hpoints).trans (sum_dayTotal _ _)

/-- A trend with one point for each day finds the days of the range. -/
theorem daysFound_of_overviewAgrees
    (h : OverviewAgrees loc zone settings ipMode ctx start stop referrerLimit recentLimit s) :
    DaysFound zone start stop := by
  obtain ⟨rounds, trend, overview, htrend, -, hagrees⟩ := h
  obtain ⟨days, hdays, hpoints⟩ := Option.map_eq_some_iff.mp htrend
  apply daysFound_of_trendDays hdays
  rw [← hagrees.days, ← hpoints, List.map_map]
  rfl

/-- The trend and the headline of a window agree with the rollup exactly when `Date` finds its
days. -/
theorem trend_agrees (loc : DatabaseLocale) (zone : Zone) (settings : RuntimeSettingsInput)
    (ipMode : GoString) (ctx : Context) (query : Values) (now : Instant)
    (referrerLimit recentLimit : Nat) (s : LinkStore) :
    OverviewAgrees loc zone settings ipMode ctx (parseDateRange zone query now).1
        (zone.addDays (parseDateRange zone query now).2 1) referrerLimit recentLimit s ↔
      DaysFound zone (parseDateRange zone query now).1
        (zone.addDays (parseDateRange zone query now).2 1) :=
  ⟨daysFound_of_overviewAgrees, overviewAgrees_of_daysFound⟩

/-- The days of a window are found when the query fits the zone and the zone has all their
midnights in order. -/
theorem Fits.daysFound {query : Values} {now : Instant} (h : Fits zone query now)
    (hdays : ∀ day, startDay zone query now ≤ day → day ≤ lastDay zone query now + 1 →
      Midnight zone day)
    (hordered : ∀ day, startDay zone query now ≤ day → day ≤ lastDay zone query now →
      zone.date day 0 < zone.date (lastDay zone query now + 1) 0)
    (hle : startDay zone query now ≤ lastDay zone query now) :
    DaysFound zone (parseDateRange zone query now).1
      (zone.addDays (parseDateRange zone query now).2 1) := by
  rw [h.start_eq, parseDateRange_snd, addDays_midnight h.last.1 h.last.2]
  apply daysFound_of_midnights hdays
  · intro day hfirst hlast
    exact hordered day hfirst (by omega)
  · omega

end

/-! ## A day that is counted twice -/

/-- America/Sao_Paulo from February 2018 on: the clocks went from midnight to one o'clock on
2018-11-04. -/
def saoPaulo : Zone where
  lookup t :=
    if t < 1541300400 then ⟨-10800, 1518919200, 1541300400⟩
    else if t < 1550368800 then ⟨-7200, 1541300400, 1550368800⟩
    else ⟨-10800, 1550368800, 2 ^ 63 - 1⟩

/-- The five days around it. -/
def skippedQuery : Values := [(lit "from", lit "2018-11-01"), (lit "to", lit "2018-11-05")]

/-- A link that was clicked five times on the day before. -/
def clickedLink : LinkStore where
  links := [{
    id := default
    aliasName := lit "launch"
    destinationURL := lit "https://example.org" }]
  daily := [{ linkID := default, day := daysFromCivil 2018 11 3, clicks := 5 }]

/-- `Date` answers with the evening before where midnight was skipped, so that the day before
has two points and its clicks are counted twice. -/
theorem trend_doubled :
    (StatsService.Overview plainLocale saoPaulo {} [] 366 {}
        (parseDateRange saoPaulo skippedQuery 0).1
        (saoPaulo.addDays (parseDateRange saoPaulo skippedQuery 0).2 1) 10 20 clickedLink).map
          StatsOverview.totalClicks = some 10 ∧
      rangeTotal false clickedLink none (daysFromCivil 2018 11 1) (daysFromCivil 2018 11 6) = 5 ∧
      ¬ OverviewAgrees plainLocale saoPaulo {} [] {} (parseDateRange saoPaulo skippedQuery 0).1
          (saoPaulo.addDays (parseDateRange saoPaulo skippedQuery 0).2 1) 10 20 clickedLink := by
  refine ⟨by decide, by decide, fun h => ?_⟩
  have hfound := (daysFound_of_overviewAgrees h).on_day 3 (by decide)
  exact absurd hfound (by decide)

end Purels.Properties
